import HighCache.Cache.Invariant
import HighCache.Memory.ValueAllocator

/-!
# A cache with its allocator

`Cache` leaves its allocator outside and records the calls it makes to it. A `CacheShard` has the
allocator in it, of either backend, over one memory: the allocator's answer is what the cache
computes with, and the calls the cache recorded are carried out on the heap, in their order, with
the `memcpy` of the new value after its allocation.

The ownership of the blocks is one statement, `Heap.Holds`: the live allocations are the blocks of
the items, with their values in them. A call of the cache takes at most one block and gives some
back (`ItemCache.Trades`), so it is carried through a call by two lemmas, one for each direction.

## Why the answer comes first

The model of the cache takes the allocator's answer from its surroundings, and it asks the allocator
at most once in a call, before it gives anything back. So the answer can be computed before the call
from the state the allocator is in, handed to the cache, and the calls carried out afterwards. That
the cache asks in this order is not assumed: it is what `ItemCache.TradesFor` says.
-/

namespace HighCache

open KeyedList

/-! ## The account of the allocator calls

The same calls are read twice: as an account that a reader can check without knowing the allocator,
and as operations of the heap. -/

/-- The live allocations after one call. `none` means that the call is not well formed: it frees a
pointer that is not live with that size, or a pointer is handed out that is live already. The null
pointer stands for the empty allocation. -/
def AllocatorCall.account : AllocatorCall → List Region → Option (List Region)
  | .allocate size pointer, live =>
    if size = 0 then if pointer = 0 then some live else none
    else if pointer = 0 ∨ pointer ∈ live.map Region.base then none
    else some (⟨pointer, size⟩ :: live)
  | .deallocate pointer size, live =>
    if pointer = 0 then if size = 0 then some live else none
    else if ⟨pointer, size⟩ ∈ live then some (live.erase ⟨pointer, size⟩) else none

/-- The live allocations after a sequence of calls, if each of them is well formed. -/
def ledger : List AllocatorCall → List Region → Option (List Region)
  | [], live => some live
  | call :: calls, live =>
    match call.account live with
    | none => none
    | some live => ledger calls live

private theorem ledger_append {calls calls' : List AllocatorCall} : ∀ {live live' : List Region},
    ledger calls live = some live' → ledger (calls ++ calls') live = ledger calls' live' := by
  induction calls with
  | nil =>
    intro live live' h
    rw [ledger, Option.some.injEq] at h
    rw [List.nil_append, h]
  | cons call calls ih =>
    intro live live' h
    rw [ledger] at h
    rw [List.cons_append, ledger]
    split at h
    · cases h
    · exact ih h

namespace Heap

/-- Carry out a call of the cache. `fresh` is the answer of `::operator new`, and `value` goes into
the block that `allocate` returns. -/
def perform (fresh : Option Pointer) (value : Bytes) (h : Heap) :
    AllocatorCall → Except Fault Heap
  | .allocate size pointer => do
    match ← h.allocator.allocate size fresh h.memory with
    | none => .error .assertion
    | some (p, memory, allocator) =>
      Checked.assert (p = pointer)
      .ok ⟨memory.write p value, allocator,
        if size = 0 then h.live else ⟨p, size⟩ :: h.live⟩
  | .deallocate pointer size => do
    let (memory, allocator) ← h.allocator.deallocate pointer size h.memory
    .ok ⟨memory, allocator, h.live.erase ⟨pointer, size⟩⟩

private theorem perform_allocate {h : Heap} {size p : ℕ} {fresh : Option Pointer} {m : Memory}
    {v : ValueAllocator} (hcode : h.allocator.allocate size fresh h.memory = .ok (some (p, m, v)))
    (value : Bytes) :
    h.perform fresh value (.allocate size p)
      = .ok ⟨m.write p value, v, if size = 0 then h.live else ⟨p, size⟩ :: h.live⟩ := by
  unfold perform
  dsimp only
  rw [hcode, Except.ok_bind_eq]
  dsimp only
  rw [Checked.assert_eq (decide_eq_true rfl)]
  rfl

private theorem perform_deallocate {h : Heap} {p size : ℕ} {m : Memory} {v : ValueAllocator}
    (hcode : h.allocator.deallocate p size h.memory = .ok (m, v)) (fresh : Option Pointer)
    (value : Bytes) :
    h.perform fresh value (.deallocate p size) = .ok ⟨m, v, h.live.erase ⟨p, size⟩⟩ := by
  unfold perform
  dsimp only
  rw [hcode]
  rfl

/-- Carry out calls in their order. -/
def performAll (fresh : Option Pointer) (value : Bytes) :
    List AllocatorCall → Heap → Except Fault Heap
  | [], h => .ok h
  | call :: calls, h => do
    let h ← h.perform fresh value call
    performAll fresh value calls h

end Heap

/-! ## The shard -/

/-- The value a call brings. -/
def Call.value : Call → Bytes
  | .set _ _ value _ => value
  | .get .. => []
  | .erase .. => []
  | .tick .. => []

/-- The call with the allocator's answer in it. -/
def Call.answered (allocation : Option Pointer) : Call → Call
  | .set env key value ttl => .set { env with allocation := allocation } key value ttl
  | .get env key output => .get { env with allocation := allocation } key output
  | .erase env key => .erase { env with allocation := allocation } key
  | .tick env => .tick { env with allocation := allocation }

/-- `CacheShard`: a cache and the heap of its allocator. -/
structure CacheShard where
  heap : Heap
  cache : Cache

namespace CacheShard

/-- `CacheShard::CacheShard(capacity_bytes, allocator_backend)`. -/
def new (backend : AllocatorBackend) (memory : Memory) (capacityBytes : ℕ) : CacheShard :=
  ⟨.start backend memory, .new capacityBytes⟩

/-- What the allocator answers to the allocation of a call, which is the first thing a call asks
of it. Here `Env.allocation` is the answer of `::operator new`. -/
def allocation (s : CacheShard) (call : Call) : Except Fault (Option Pointer) := do
  let answer ← s.heap.allocator.allocate call.value.length call.env.allocation s.heap.memory
  .ok (answer.map Prod.fst)

/-- One call: the cache runs on the allocator's answer, and what it asked for is carried out. -/
def call (s : CacheShard) (call : Call) : Except Fault (Answer × CacheShard) := do
  let allocation ← s.allocation call
  let (answer, cache) ← s.cache.call (call.answered allocation)
  let heap ← Heap.performAll call.env.allocation call.value
    (cache.calls.drop s.cache.calls.length) s.heap
  .ok (answer, ⟨heap, cache⟩)

/-- `::operator new` hands out free memory only. -/
def Admits (s : CacheShard) (call : Call) : Prop :=
  ∀ p, call.env.allocation = some p → call.value ≠ [] → s.heap.Fresh call.value.length p

theorem fresh_new_system {memory : Memory} {capacityBytes p size : ℕ} (hp : 0 < p)
    (hbound : p + size ≤ Checked.wordSize) :
    (new .system memory capacityBytes).heap.Fresh size p :=
  ⟨hp, hbound, fun _ hmem ↦ absurd hmem List.not_mem_nil⟩

/-- Every call of a sequence is admitted when its turn comes. -/
def AdmitsAll : CacheShard → List Call → Prop
  | _, [] => True
  | s, call :: calls =>
    s.Admits call ∧ ∀ answer s', s.call call = .ok (answer, s') → AdmitsAll s' calls

/-- Where `::operator new` always throws, there is nothing to admit. -/
theorem admitsAll_of_forall_none : ∀ (calls : List Call),
    (∀ call ∈ calls, call.env.allocation = none) → ∀ s : CacheShard, s.AdmitsAll calls := by
  intro calls
  induction calls with
  | nil => intro _ s; trivial
  | cons call calls ih =>
    intro hnone s
    obtain ⟨hcall, hcalls⟩ := List.forall_mem_cons.mp hnone
    refine ⟨fun p hp ↦ ?_, fun _ s' _ ↦ ih hcalls s'⟩
    rw [hcall] at hp
    cases hp

/-- `Cache::~Cache`: the entries are destroyed in the order `order`, the map's own. -/
def destroy (s : CacheShard) (order : List (Bytes × StoredEntry)) : Except Fault Heap :=
  Heap.performAll none []
    (order.map fun x ↦ .deallocate x.2.entry.data x.2.entry.value.length) s.heap

end CacheShard

/-! ## Ownership

An empty value has no block and its pointer is null. The live allocations are compared with the
blocks up to order, since the allocator records them in the order of allocation and the cache in the
order of use. -/

/-- The allocation behind an item. -/
def Item.block (x : Item) : Region := ⟨x.data, x.value.length⟩

/-- The call that took the block of an item. -/
def Item.acquire (x : Item) : AllocatorCall := .allocate x.value.length x.data

/-- The allocations behind some items: empty values have none. -/
def blocks (xs : List Item) : List Region := (xs.filter fun x ↦ x.value ≠ []).map Item.block

theorem blocks_cons_of_empty {x : Item} (h : x.value = []) (xs : List Item) :
    blocks (x :: xs) = blocks xs := by
  rw [blocks, List.filter_cons_of_neg (by simp [h]), blocks]

theorem blocks_cons_of_ne {x : Item} (h : x.value ≠ []) (xs : List Item) :
    blocks (x :: xs) = x.block :: blocks xs := by
  rw [blocks, List.filter_cons_of_pos (by simp [h]), List.map_cons, blocks]

private theorem mem_blocks {x : Item} {xs : List Item} (hx : x ∈ xs) (h : x.value ≠ []) :
    x.block ∈ blocks xs :=
  List.mem_map_of_mem (List.mem_filter.mpr ⟨hx, by simp [h]⟩)

namespace Heap

/-- The heap holds the items: its live allocations are their blocks, with the values in them. -/
structure Holds (h : Heap) (xs : List Item) : Prop where
  sound : h.Sound
  live : h.live.Perm (blocks xs)
  null : ∀ x ∈ xs, x.value = [] → x.data = 0
  stored : ∀ x ∈ xs, h.memory.read x.data x.value.length = x.value

theorem Holds.perm {h : Heap} {xs ys : List Item} (hh : h.Holds xs) (hperm : xs.Perm ys) :
    h.Holds ys where
  sound := hh.sound
  live := hh.live.trans ((hperm.filter _).map _)
  null := fun x hx ↦ hh.null x (hperm.symm.subset hx)
  stored := fun x hx ↦ hh.stored x (hperm.symm.subset hx)

theorem Holds.mem_live {h : Heap} {xs : List Item} (hh : h.Holds xs) {x : Item} (hx : x ∈ xs)
    (hvalue : x.value ≠ []) : x.block ∈ h.live :=
  hh.live.symm.subset (mem_blocks hx hvalue)

/-- Memory that agrees on the live blocks holds the same values. -/
private theorem Holds.stored_of_frame {h : Heap} {xs : List Item} (hh : h.Holds xs) {m : Memory}
    {ys : List Item} (hsub : ∀ x ∈ ys, x ∈ xs) (hframe : ∀ x ∈ ys, x.value ≠ [] →
      ∀ k < x.value.length, m (x.data + k) = h.memory (x.data + k)) :
    ∀ x ∈ ys, m.read x.data x.value.length = x.value := by
  intro x hx
  by_cases hvalue : x.value = []
  · rw [hvalue]
    rfl
  · rw [Memory.read_congr (hframe x hx hvalue)]
    exact hh.stored x (hsub x hx)

/-- **Allocating the block of a new item**, with its value copied into it. -/
theorem Holds.allocate {h : Heap} {xs : List Item} (hh : h.Holds xs) (value : Bytes)
    {fresh : Option Pointer}
    (hfresh : ∀ p, fresh = some p → value ≠ [] → h.Fresh value.length p) :
    h.allocator.allocate value.length fresh h.memory = .ok none
      ∨ ∃ p m v, h.allocator.allocate value.length fresh h.memory = .ok (some (p, m, v))
        ∧ ∀ item : Item, item.data = p → item.value = value →
          ∃ h', h.perform fresh value item.acquire = .ok h' ∧ h'.Holds (item :: xs)
            ∧ item.acquire.account h.live = some h'.live := by
  by_cases hvalue : value = []
  · subst hvalue
    have hcode := h.allocate_null fresh
    refine Or.inr ⟨0, h.memory, h.allocator, hcode, ?_⟩
    rintro ⟨key, value, data, generation⟩ rfl rfl
    have hwrite : h.memory.write 0 [] = h.memory :=
      funext fun a ↦ h.memory.write_apply_of_outside (Or.inr (Nat.zero_le _))
    refine ⟨h, ?_, ⟨hh.sound, ?_, ?_, ?_⟩, rfl⟩
    · refine (perform_allocate hcode []).trans ?_
      rw [hwrite]
      rfl
    · rw [blocks_cons_of_empty rfl]
      exact hh.live
    · exact List.forall_mem_cons.mpr ⟨fun _ ↦ rfl, hh.null⟩
    · exact List.forall_mem_cons.mpr ⟨rfl, hh.stored⟩
  · have hlen : value.length ≠ 0 := fun hzero ↦ hvalue (List.length_eq_zero_iff.mp hzero)
    rcases hh.sound.allocate hlen fun p hp ↦ hfresh p hp hvalue with
      hcode | ⟨p, m, v, hcode, hsound, hframe⟩
    · exact Or.inl hcode
    refine Or.inr ⟨p, m, v, hcode, ?_⟩
    rintro ⟨key, value, data, generation⟩ rfl rfl
    obtain ⟨hsound', hkeeps⟩ := hsound.write List.mem_cons_self (le_refl value.length)
    have hfacts := hsound.facts
    -- the block is new, so the values of the others are where they were
    have hnew := List.nodup_cons.mp hfacts.bases_nodup
    have hne : data ≠ 0 := hfacts.base_ne_zero _ List.mem_cons_self
    refine ⟨⟨m.write data value, v, ⟨data, value.length⟩ :: h.live⟩, ?_, ⟨hsound', ?_, ?_, ?_⟩, ?_⟩
    · rw [Item.acquire, perform_allocate hcode, if_neg hlen]
    · rw [blocks_cons_of_ne hvalue]
      exact hh.live.cons _
    · exact List.forall_mem_cons.mpr ⟨fun hempty ↦ absurd hempty hvalue, hh.null⟩
    · refine List.forall_mem_cons.mpr ⟨m.read_write data value, ?_⟩
      refine hh.stored_of_frame (fun x hx ↦ hx) fun x hx hx' k hk ↦ ?_
      have hlive := hh.mem_live hx hx'
      refine (hkeeps x.block (List.mem_cons_of_mem _ hlive) ?_ k hk).trans
        (hframe x.block hlive k hk)
      intro heq
      exact hnew.1 (List.mem_map.mpr ⟨x.block, hlive, congrArg Region.base heq⟩)
    · rw [Item.acquire, AllocatorCall.account, if_neg hlen, if_neg]
      rintro (hzero | hmem)
      · exact hne hzero
      · exact hnew.1 hmem

/-- **Giving back the block of an item.** -/
theorem Holds.release {h : Heap} {x : Item} {xs : List Item} (hh : h.Holds (x :: xs))
    (fresh : Option Pointer) (value : Bytes) :
    ∃ h', h.perform fresh value x.release = .ok h' ∧ h'.Holds xs
      ∧ x.release.account h.live = some h'.live := by
  have hnull := List.forall_mem_cons.mp hh.null
  have hfacts := hh.sound.facts
  by_cases hvalue : x.value = []
  · have hdata := hnull.1 hvalue
    have hlive : h.live.erase ⟨0, 0⟩ = h.live :=
      List.erase_of_not_mem fun hmem ↦ hfacts.base_ne_zero _ hmem rfl
    have hrelease : x.release = .deallocate 0 0 := by
      rw [Item.release, hdata, hvalue]
      rfl
    refine ⟨h, ?_, ⟨hh.sound, ?_, hnull.2, (List.forall_mem_cons.mp hh.stored).2⟩, ?_⟩
    · rw [hrelease, perform_deallocate h.deallocate_null, hlive]
    · rw [← blocks_cons_of_empty hvalue]
      exact hh.live
    · rw [hrelease]
      rfl
  · have hmem := hh.mem_live List.mem_cons_self hvalue
    have hbase : x.data ≠ 0 := hfacts.base_ne_zero _ hmem
    obtain ⟨m, v, hcode, hsound, hframe⟩ := hh.sound.deallocate hmem
    have hlive : (h.live.erase x.block).Perm (blocks xs) := by
      have := hh.live.erase x.block
      rwa [blocks_cons_of_ne hvalue, List.erase_cons_head] at this
    refine ⟨⟨m, v, h.live.erase x.block⟩, ?_, ⟨hsound, hlive, hnull.2, ?_⟩, ?_⟩
    · exact perform_deallocate hcode fresh value
    · refine hh.stored_of_frame (fun y hy ↦ List.mem_cons_of_mem _ hy) fun y hy hy' k hk ↦ ?_
      have hmem' := hh.mem_live (List.mem_cons_of_mem x hy) hy'
      refine hframe y.block hmem' ?_ k hk
      intro heq
      -- the block of `y` is still live after one copy of it is erased
      have hnd : (h.live.map Region.base).Nodup := hfacts.bases_nodup
      have hstill : y.block ∈ h.live.erase x.block := hlive.symm.subset (mem_blocks hy hy')
      rw [heq] at hstill
      exact (List.Nodup.not_mem_erase (List.Nodup.of_map _ hnd)) hstill
    · rw [Item.release, AllocatorCall.account, if_neg hbase]
      exact if_pos hmem

theorem Holds.releaseAll (fresh : Option Pointer) (value : Bytes) {ys : List Item} :
    ∀ (xs : List Item) {h : Heap}, h.Holds (xs ++ ys) →
      ∃ h', performAll fresh value (xs.map Item.release) h = .ok h' ∧ h'.Holds ys
        ∧ ledger (xs.map Item.release) h.live = some h'.live := by
  intro xs
  induction xs with
  | nil => intro h hh; exact ⟨h, rfl, hh, rfl⟩
  | cons x xs ih =>
    intro h hh
    obtain ⟨h₁, hcode, hh₁, haccount⟩ := hh.release fresh value
    obtain ⟨h₂, hcode', hh₂, hledger⟩ := ih hh₁
    refine ⟨h₂, ?_, hh₂, ?_⟩
    · rw [List.map_cons, performAll, hcode]
      exact hcode'
    · rw [List.map_cons, ledger, haccount]
      exact hledger

end Heap

/-! ## What a call says to the allocator

Blocks are conserved: what was there and what was taken is what is there now and what was given
back. This is one permutation of items, and it says that no block is given back twice and none is
lost. -/

namespace ItemCache

/-- From `a` to `b` the blocks of `made` were taken and those of `released` given back. -/
structure Trades (a b : ItemCache) (made released : List Item) : Prop where
  calls : b.calls = a.calls ++ (made.map Item.acquire ++ released.map Item.release)
  items : (made ++ a.items).Perm (released ++ b.items)

theorem Trades.of_eq {a b : ItemCache} (hcalls : b.calls = a.calls)
    (hitems : a.items.Perm b.items) : Trades a b [] [] :=
  ⟨by rw [hcalls]; exact (List.append_nil _).symm, hitems⟩

theorem Trades.release {a b c : ItemCache} {made released released' : List Item}
    (h : Trades a b made released)
    (h' : Trades b c [] released') : Trades a c made (released ++ released') := by
  refine ⟨?_, ?_⟩
  · rw [h'.calls, h.calls, List.map_append]
    simp only [List.map_nil, List.nil_append, List.append_assoc]
  · rw [List.append_assoc]
    exact h.items.trans (h'.items.append_left released)

/-- What was kept of `rest` and what was evicted make up `rest`. -/
private theorem perm_makeRoom (charge : ℕ) (rest : List Item) (a : ItemCache) :
    rest.Perm ((overflow Item.charge (a.capacity - charge) rest).reverse
      ++ (a.makeRoom charge rest).items) := by
  have hsplit := fitting_append_overflow Item.charge (a.capacity - charge) rest
  have hperm : rest.Perm _ := List.Perm.of_eq hsplit.symm
  refine (hperm.trans List.perm_append_comm).trans ?_
  exact ((List.reverse_perm _).symm).append_right _

private theorem trades_back {a b : ItemCache} (item : Item) (hitems : b.items = a.items)
    (hcalls : b.calls = a.calls ++ [item.acquire]) :
    Trades a (b.release [item]) [item] [item] := by
  refine ⟨?_, List.Perm.of_eq ?_⟩
  · show b.calls ++ _ = _
    rw [hcalls, List.append_assoc]
    rfl
  · show item :: a.items = item :: b.items
    rw [hitems]

/-- The allocation of a new item: it is made, or there is an exception, before it or after it. -/
private theorem prepare_trades (env : Env) (key value : Bytes) (ttl : Int64) (a : ItemCache) :
    (∃ item b, a.prepare env key value ttl = (.ok item, b) ∧ env.allocation = some item.data
        ∧ item.value = value ∧ b.items = a.items ∧ b.calls = a.calls ++ [item.acquire])
      ∨ (∃ exception b, a.prepare env key value ttl = (.error exception, b)
        ∧ (Trades a b [] [] ∨ ∃ item : Item, env.allocation = some item.data ∧ item.value = value
          ∧ Trades a b [item] [item])) := by
  unfold prepare
  cases env.allocation with
  | none => exact Or.inr ⟨_, _, rfl, Or.inl (.of_eq rfl (List.Perm.refl _))⟩
  | some pointer =>
    dsimp only
    by_cases hsource : a.generationSource = Cache.maxGeneration
    · rw [if_pos hsource]
      exact Or.inr ⟨_, _, rfl, Or.inr ⟨_, rfl, rfl, trades_back _ rfl rfl⟩⟩
    · rw [if_neg hsource]
      by_cases httl : 0 < ttl
      · rw [if_pos httl]
        by_cases hthrow : (env.throws .timerKey || env.throws .timerEvent) = true
        · rw [if_pos hthrow]
          exact Or.inr ⟨_, _, rfl, Or.inr ⟨_, rfl, rfl, trades_back _ rfl rfl⟩⟩
        · rw [if_neg hthrow]
          exact Or.inl ⟨_, _, rfl, rfl, rfl, rfl, rfl⟩
      · rw [if_neg httl]
        exact Or.inl ⟨_, _, rfl, rfl, rfl, rfl, rfl⟩

/-- A call takes at most one block, of the size of its value, and gives some back. -/
inductive TradesFor (call : Call) (a b : ItemCache) : Prop where
  | nothing (released : List Item) (h : Trades a b [] released)
  | taken (item : Item) (released : List Item) (hdata : call.env.allocation = some item.data)
    (hvalue : item.value = call.value) (h : Trades a b [item] released)

/-- The exceptions of `prepare`. -/
private theorem TradesFor.of_error {env : Env} {key value : Bytes} {ttl : Int64} {a b : ItemCache}
    (h : Trades a b [] [] ∨ ∃ item : Item, env.allocation = some item.data ∧ item.value = value
      ∧ Trades a b [item] [item]) : TradesFor (.set env key value ttl) a b := by
  rcases h with h | ⟨item, hdata, hvalue, h⟩
  · exact .nothing _ h
  · exact .taken _ _ hdata hvalue h

private theorem trades_overwrite {a : ItemCache} (h : a.WellFormed) (env : Env) {key : Bytes}
    (value : Bytes) (ttl : Int64) {old : Item} (hold : a.find key = some old) :
    TradesFor (.set env key value ttl) a (a.overwrite env key value ttl old).2 := by
  unfold overwrite
  rcases prepare_trades env key value ttl a with
    ⟨item, b, hr, hdata, hvalue, hitems, hcalls⟩ | ⟨exception, b, hr, hback⟩
  · rw [hr]
    have hothers : b.others key = a.others key := by rw [others, hitems, others]
    have hroom := perm_makeRoom item.charge (a.others key) b
    have hperm := perm_cons_without h.keys_nodup (mem_of_find hold)
    rw [key_of_find hold] at hperm
    refine .taken item
      ((overflow Item.charge (b.capacity - item.charge) (a.others key)).reverse ++ [old])
      hdata hvalue ⟨?_, ?_⟩
    · dsimp only [release, makeRoom]
      rw [hcalls, hothers, List.map_append]
      simp only [List.append_assoc, List.map_cons, List.map_nil]
    · dsimp only [release]
      rw [hothers, List.append_assoc]
      refine ((hperm.trans (hroom.cons old)).cons item).trans ?_
      refine List.Perm.trans ?_ List.perm_middle.symm
      exact (List.Perm.swap old item _).trans (List.perm_middle.symm.cons old)
  · rw [hr]
    exact .of_error hback

private theorem trades_insertNew (env : Env) (key value : Bytes) (ttl : Int64) (a : ItemCache) :
    TradesFor (.set env key value ttl) a (a.insertNew env key value ttl).2 := by
  unfold insertNew
  split
  · exact .nothing [] (.of_eq rfl (List.Perm.refl _))
  rcases prepare_trades env key value ttl a with
    ⟨item, b, hr, hdata, hvalue, hitems, hcalls⟩ | ⟨exception, b, hr, hback⟩
  · rw [hr]
    have hroom := perm_makeRoom item.charge b.items b
    have hperm : (item :: a.items).Perm
        ((overflow Item.charge (b.capacity - item.charge) b.items).reverse
          ++ item :: (b.makeRoom item.charge b.items).items) := by
      rw [← hitems]
      exact (hroom.cons item).trans List.perm_middle.symm
    dsimp only
    split
    · refine .taken item
        ((overflow Item.charge (b.capacity - item.charge) b.items).reverse ++ [item])
        hdata hvalue ⟨?_, ?_⟩
      · dsimp only [release, makeRoom]
        rw [hcalls, List.map_append]
        simp only [List.append_assoc, List.map_cons, List.map_nil]
      · rw [List.append_assoc]
        exact hperm
    · refine .taken item (overflow Item.charge (b.capacity - item.charge) b.items).reverse
        hdata hvalue ⟨?_, hperm⟩
      dsimp only [release, makeRoom]
      rw [hcalls]
      simp only [List.append_assoc, List.map_cons, List.map_nil]
  · rw [hr]
    exact .of_error hback

private theorem trades_remove {a b : ItemCache} (h : a.WellFormed) {key : Bytes} {item : Item}
    (hfind : a.find key = some item) (hcalls : b.calls = a.calls ++ [item.release])
    (hitems : b.items = a.others key) : Trades a b [] [item] := by
  have hperm := perm_cons_without h.keys_nodup (mem_of_find hfind)
  rw [key_of_find hfind] at hperm
  refine ⟨hcalls, ?_⟩
  rw [hitems]
  exact hperm

private theorem trades_expireAll : ∀ (timers : List Timer) {a : ItemCache}, a.WellFormed →
    ∃ released, Trades a (expireAll timers a) [] released := by
  intro timers
  induction timers with
  | nil => intro a _; exact ⟨[], .of_eq rfl (List.Perm.refl _)⟩
  | cons timer timers ih =>
    intro a h
    rw [expireAll]
    split
    · exact ih h
    · rename_i item hfind
      split
      · exact ih h
      · obtain ⟨released, hrest⟩ := ih (h.of_subperm (b := release [item] { a with
          items := a.others timer.key
          expired := a.expired + 1 }) rfl (others_subperm _ _) rfl (List.Sublist.refl _)
          h.timer_pending)
        exact ⟨_, (trades_remove h hfind rfl rfl).release hrest⟩

/-- **What a call says to the allocator**: it takes at most one block, then gives back blocks of
items it no longer has. -/
theorem trades_call {a : ItemCache} (h : a.WellFormed) (call : Call) :
    TradesFor call a (a.call call).2 := by
  have hnone : ∀ b : ItemCache, b.calls = a.calls → a.items.Perm b.items → TradesFor call a b :=
    fun b hcalls hitems ↦ .nothing [] (.of_eq hcalls hitems)
  cases call with
  | set env key value ttl =>
    dsimp only [call, set]
    split
    · exact hnone _ rfl (List.Perm.refl _)
    split
    · exact hnone _ rfl (List.Perm.refl _)
    split
    · exact hnone _ rfl (List.Perm.refl _)
    split
    · exact hnone _ rfl (List.Perm.refl _)
    split
    · exact hnone _ rfl (List.Perm.refl _)
    cases hfind : a.find key with
    | some old => exact trades_overwrite h env value ttl hfind
    | none => exact trades_insertNew env key value ttl a
  | get env key output =>
    dsimp only [call, get]
    split
    · exact hnone _ rfl (List.Perm.refl _)
    split
    · exact hnone _ rfl (List.Perm.refl _)
    cases hfind : a.find key with
    | none => exact hnone _ rfl (List.Perm.refl _)
    | some item =>
      dsimp only
      split
      · exact hnone _ rfl (List.Perm.refl _)
      · have hperm := perm_cons_without h.keys_nodup (mem_of_find hfind)
        rw [key_of_find hfind] at hperm
        exact hnone _ rfl hperm
  | erase env key =>
    dsimp only [call, erase]
    split
    · exact hnone _ rfl (List.Perm.refl _)
    split
    · exact hnone _ rfl (List.Perm.refl _)
    cases hfind : a.find key with
    | none => exact hnone _ rfl (List.Perm.refl _)
    | some item => exact .nothing _ (trades_remove h hfind rfl rfl)
  | tick env =>
    dsimp only [call, tick]
    split
    · exact hnone _ rfl (List.Perm.refl _)
    · obtain ⟨released, hrest⟩ := trades_expireAll a.timers.due (WellFormed.advance h)
      exact .nothing _ ⟨hrest.calls, hrest.items⟩

end ItemCache

/-! ## The shard keeps its books -/

namespace CacheShard

/-- The shard is the list cache `a`, its heap holds the items, and the calls made so far account
for the live allocations. -/
structure Backed (s : CacheShard) (a : ItemCache) : Prop where
  simulates : s.cache.Simulates a
  holds : s.heap.Holds a.items
  ledger : ledger s.cache.calls [] = some s.heap.live

theorem backed_new (backend : AllocatorBackend) (memory : Memory) {capacity : ℕ}
    (h : capacity < Checked.wordSize) :
    (new backend memory capacity).Backed (ItemCache.new capacity) where
  simulates := Cache.simulates_new h
  holds := ⟨Heap.sound_start backend memory, List.Perm.refl _,
    fun _ hx ↦ absurd hx List.not_mem_nil, fun _ hx ↦ absurd hx List.not_mem_nil⟩
  ledger := rfl

private theorem Backed.performAll {s : CacheShard} {a b : ItemCache} (h : s.Backed a)
    {call : Call} (hadmits : s.Admits call) {allocation : Option Pointer}
    (hallocation : s.allocation call = .ok allocation)
    (htrades : ItemCache.TradesFor (call.answered allocation) a b) :
    ∃ calls heap, b.calls = a.calls ++ calls
      ∧ Heap.performAll call.env.allocation call.value calls s.heap = .ok heap
      ∧ heap.Holds b.items ∧ HighCache.ledger calls s.heap.live = some heap.live := by
  have henv : (call.answered allocation).env.allocation = allocation := by cases call <;> rfl
  have hvalue' : (call.answered allocation).value = call.value := by cases call <;> rfl
  cases htrades with
  | nothing released htrades =>
    obtain ⟨heap, hcode, hholds, hledger⟩ := Heap.Holds.releaseAll call.env.allocation call.value
      released (h.holds.perm htrades.items)
    exact ⟨released.map Item.release, heap, htrades.calls, hcode, hholds, hledger⟩
  | taken item released hdata hvalue htrades =>
    rw [henv] at hdata
    rw [hvalue'] at hvalue
    rw [CacheShard.allocation] at hallocation
    rcases h.holds.allocate call.value hadmits with hcode | ⟨p, m, v, hcode, hacquire⟩
    · rw [hcode, Except.ok_bind_eq, Except.ok.injEq, hdata] at hallocation
      cases hallocation
    rw [hcode, Except.ok_bind_eq, Except.ok.injEq, hdata, Option.map_some, Option.some.injEq]
      at hallocation
    obtain ⟨heap₁, hperform, hholds₁, haccount⟩ := hacquire item hallocation.symm hvalue
    obtain ⟨heap, hperform', hholds, hledger⟩ := Heap.Holds.releaseAll call.env.allocation
      call.value released (hholds₁.perm htrades.items)
    refine ⟨item.acquire :: released.map Item.release, heap, htrades.calls, ?_, hholds, ?_⟩
    · rw [Heap.performAll, hperform]
      exact hperform'
    · rw [HighCache.ledger, haccount]
      exact hledger

/-- **One call**: it goes through, and the books balance after it. -/
theorem Backed.call {s : CacheShard} {a : ItemCache} (h : s.Backed a) {call : Call}
    (hadmits : s.Admits call) :
    ∃ allocation s', s.allocation call = .ok allocation
      ∧ s.call call = .ok ((a.call (call.answered allocation)).1, s')
      ∧ s'.Backed (a.call (call.answered allocation)).2 := by
  have hallocation : ∃ allocation, s.allocation call = .ok allocation := by
    rw [CacheShard.allocation]
    rcases h.holds.allocate call.value hadmits with hcode | ⟨p, m, v, hcode, -⟩
    · exact ⟨none, by rw [hcode]; rfl⟩
    · exact ⟨some p, by rw [hcode]; rfl⟩
  obtain ⟨allocation, hallocation⟩ := hallocation
  obtain ⟨hwf, L, href⟩ := h.simulates
  obtain ⟨c', L', hcall, href'⟩ := href.call hwf (call.answered allocation)
  obtain ⟨calls, heap, hcalls, hperform, hholds, hledger⟩ := h.performAll hadmits hallocation
    (ItemCache.trades_call hwf (call.answered allocation))
  have hlog : c'.calls = s.cache.calls ++ calls := by
    rw [href'.calls, hcalls, href.calls]
  refine ⟨allocation, ⟨heap, c'⟩, hallocation, ?_, ⟨hwf.call _, L', href'⟩, hholds, ?_⟩
  · rw [CacheShard.call, hallocation, Except.ok_bind_eq, hcall, Except.ok_bind_eq]
    dsimp only
    rw [hlog, List.drop_left, hperform]
    rfl
  · show HighCache.ledger c'.calls [] = some heap.live
    rw [hlog, ledger_append h.ledger]
    exact hledger

/-- **Whole runs of a shard.** -/
theorem Backed.run : ∀ (calls : List Call) {s : CacheShard} {a : ItemCache}, s.Backed a →
    s.AdmitsAll calls → ∃ answers s' a', Transition.run CacheShard.call s calls = .ok (answers, s')
      ∧ s'.Backed a' := by
  intro calls
  induction calls with
  | nil => intro s a h _; exact ⟨[], s, a, rfl, h⟩
  | cons c calls ih =>
    intro s a h hadmits
    obtain ⟨allocation, s₁, -, hcall, h₁⟩ := h.call hadmits.1
    obtain ⟨answers, s₂, a₂, hrun, h₂⟩ := ih h₁ (hadmits.2 _ _ hcall)
    refine ⟨(a.call (c.answered allocation)).1 :: answers, s₂, a₂, ?_, h₂⟩
    rw [Transition.run_cons hcall, hrun]
    rfl

/-! ## The account -/

private theorem sum_blocks (xs : List Item) :
    ((blocks xs).map Region.size).sum = total (fun x : Item ↦ x.value.length) xs := by
  induction xs with
  | nil => rfl
  | cons x xs ih =>
    rw [total_cons]
    by_cases hvalue : x.value = []
    · rw [blocks_cons_of_empty hvalue, ih, hvalue, List.length_nil, Nat.zero_add]
    · rw [blocks_cons_of_ne hvalue, List.map_cons, List.sum_cons, ih]
      rfl

private theorem total_charge (xs : List Item) : total Item.charge xs
    = total (fun x : Item ↦ x.value.length) xs + total (fun x : Item ↦ x.key.length) xs := by
  induction xs with
  | nil => rfl
  | cons x xs ih =>
    rw [total_cons, total_cons, total_cons, ih, Item.charge, Cache.entryCharge]
    omega

/-- The bytes of the keys of a map. -/
def keyBytes (entries : Finmap fun _ : Bytes ↦ StoredEntry) : ℕ :=
  FiniteMap.weight (fun x ↦ x.1.length) entries

/-- The bytes of the values of a map. -/
def valueBytes (entries : Finmap fun _ : Bytes ↦ StoredEntry) : ℕ :=
  FiniteMap.weight (fun x ↦ x.2.entry.value.length) entries

/-- The entries of a map with a value that is not empty. -/
def nonEmpty (entries : Finmap fun _ : Bytes ↦ StoredEntry) : Finmap fun _ : Bytes ↦ StoredEntry :=
  FiniteMap.filter (fun x ↦ x.2.entry.value ≠ []) entries

/-- **What the cache and its allocator agree on.** -/
structure Balanced (s : CacheShard) : Prop where
  /-- Every call to the allocator was well formed, and they leave live what is live. -/
  ledger : HighCache.ledger s.cache.calls [] = some s.heap.live
  /-- No two live allocations share an address. -/
  bases_nodup : (s.heap.live.map Region.base).Nodup
  /-- The live allocations are the blocks of the entries with a value, … -/
  live : ∀ r, r ∈ s.heap.live ↔ ∃ key stored, s.cache.entries.lookup key = some stored
    ∧ stored.entry.value ≠ [] ∧ r = ⟨stored.entry.data, stored.entry.value.length⟩
  /-- … each the block of one entry, … -/
  owner : ∀ key key' stored stored', s.cache.entries.lookup key = some stored →
    s.cache.entries.lookup key' = some stored' → stored.entry.value ≠ [] →
    stored.entry.data = stored'.entry.data → key = key'
  /-- … which finds its value there. -/
  stored : ∀ key stored, s.cache.entries.lookup key = some stored →
    s.heap.memory.read stored.entry.data stored.entry.value.length = stored.entry.value
  values : s.heap.allocator.metrics.usedBytes = valueBytes s.cache.entries
  used : s.heap.allocator.metrics.usedBytes + keyBytes s.cache.entries = s.cache.memoryUsageBytes
  count : (s.heap.allocator.metrics.allocationCount
    - s.heap.allocator.metrics.deallocationCount).toNat
      = FiniteMap.size (nonEmpty s.cache.entries)

theorem Backed.balanced {s : CacheShard} {a : ItemCache} (h : s.Backed a) : s.Balanced := by
  obtain ⟨hwf, L, href⟩ := h.simulates
  have hholds := h.holds
  have hfacts := hholds.sound.facts
  have hitem : ∀ {key stored}, s.cache.entries.lookup key = some stored →
      toItem (key, stored) ∈ a.items := fun hs ↦ href.mem_items hs
  -- empty values have no block
  have hnonempty : (a.items.filter fun x ↦ x.value ≠ [])
      = (L.filter fun x ↦ x.2.entry.value ≠ []).map toItem := by
    rw [href.items, List.filter_map]
    rfl
  refine ⟨h.ledger, hfacts.bases_nodup, fun r ↦ ?_,
    fun key key' stored stored' hs hs' hvalue hdata ↦ ?_,
    fun key stored hs ↦ hholds.stored _ (hitem hs), ?_, ?_, ?_⟩
  · rw [hholds.live.mem_iff, blocks, hnonempty, List.map_map, List.mem_map]
    constructor
    · rintro ⟨⟨key, stored⟩, hmem, rfl⟩
      rw [List.mem_filter, ← href.lists.lookup] at hmem
      exact ⟨key, stored, hmem.1, by simpa using hmem.2, rfl⟩
    · rintro ⟨key, stored, hs, hvalue, rfl⟩
      refine ⟨(key, stored), List.mem_filter.mpr ⟨(href.lists.lookup key stored).mp hs, ?_⟩, rfl⟩
      simpa using hvalue
  · -- a second owner of the address would be a second live block at it
    have hblock := hholds.mem_live (hitem hs) hvalue
    have hvalue' : stored'.entry.value ≠ [] := fun hempty ↦
      hfacts.base_ne_zero _ hblock (hdata.trans (hholds.null _ (hitem hs') hempty))
    have hnd : ((a.items.filter fun x ↦ x.value ≠ []).map fun x ↦ x.data).Nodup := by
      have := (hholds.live.map Region.base).nodup_iff.mp hfacts.bases_nodup
      rwa [blocks, List.map_map] at this
    have heq := List.inj_on_of_nodup_map hnd
      (List.mem_filter.mpr ⟨hitem hs, decide_eq_true hvalue⟩)
      (List.mem_filter.mpr ⟨hitem hs', decide_eq_true hvalue'⟩) hdata
    exact congrArg Item.key heq
  · rw [hfacts.used, (hholds.live.map Region.size).sum_eq, sum_blocks, valueBytes,
      href.lists.weight_eq, href.items, total, total, List.map_map]
    rfl
  · have hkeys : keyBytes s.cache.entries = total (fun x : Item ↦ x.key.length) a.items := by
      rw [keyBytes, href.lists.weight_eq, href.items, total, total, List.map_map]
      rfl
    rw [hkeys, hfacts.used, (hholds.live.map Region.size).sum_eq, sum_blocks, href.usage,
      ItemCache.usage, total_charge]
  · rw [hfacts.count, hholds.live.length_eq, blocks, List.length_map, hnonempty, List.length_map,
      nonEmpty, (href.lists.filter _).size_eq]

theorem Backed.destroy {s : CacheShard} {a : ItemCache} (h : s.Backed a)
    {order : List (Bytes × StoredEntry)} (horder : FiniteMap.ListedBy s.cache.entries order) :
    ∃ heap, s.destroy order = .ok heap ∧ heap.live = []
      ∧ heap.allocator.metrics.usedBytes = 0
      ∧ heap.allocator.metrics.internalFragmentation = 0 := by
  obtain ⟨hwf, L, href⟩ := h.simulates
  have hperm : a.items.Perm (order.map toItem ++ []) := by
    rw [href.items, List.append_nil]
    exact (href.lists.perm_of_listed horder).map toItem
  obtain ⟨heap, hcode, hholds, -⟩ :=
    Heap.Holds.releaseAll none [] (order.map toItem) (h.holds.perm hperm)
  have hfacts := hholds.sound.facts
  have hlive : heap.live = [] := List.Perm.eq_nil hholds.live
  refine ⟨heap, ?_, hlive, ?_, hfacts.fragmentation hlive⟩
  · rw [List.map_map] at hcode
    exact hcode
  · rw [hfacts.used, hlive]
    rfl

/-- **The books balance after every run.** With either backend, from a new shard, no call faults;
the calls to the allocator are well formed, the live allocations are the blocks of the entries, and
destroying the cache gives everything back. -/
theorem run_balanced (backend : AllocatorBackend) (memory : Memory) (capacity : UInt64)
    (calls : List Call) (hadmits : (new backend memory capacity.toNat).AdmitsAll calls) :
    ∃ answers s, Transition.run call (new backend memory capacity.toNat) calls = .ok (answers, s)
      ∧ s.Balanced
      ∧ ∀ order, FiniteMap.ListedBy s.cache.entries order →
        ∃ heap, s.destroy order = .ok heap ∧ heap.live = []
          ∧ heap.allocator.metrics.usedBytes = 0
          ∧ heap.allocator.metrics.internalFragmentation = 0 := by
  obtain ⟨answers, s, a, hrun, h⟩ :=
    (backed_new backend memory capacity.toNat_lt).run calls hadmits
  exact ⟨answers, s, hrun, h.balanced, fun order horder ↦ h.destroy horder⟩

/-- A value that is stored, one that finds no memory, and an entry erased. -/
theorem run_balanced_bad_alloc :
    let calls : List Call := [.set ⟨some 4096, fun _ ↦ false⟩ [1] [7, 7] 1000,
      .set ⟨none, fun _ ↦ false⟩ [2] [8] 0, .erase ⟨none, fun _ ↦ false⟩ [1]]
    ∃ answers s, Transition.run call (new .system (fun _ ↦ 0) (64 : UInt64).toNat) calls
        = .ok (answers, s)
      ∧ s.Balanced
      ∧ ∀ order, FiniteMap.ListedBy s.cache.entries order →
        ∃ heap, s.destroy order = .ok heap ∧ heap.live = []
          ∧ heap.allocator.metrics.usedBytes = 0
          ∧ heap.allocator.metrics.internalFragmentation = 0 := by
  refine run_balanced .system (fun _ ↦ 0) 64 _ ⟨?_, fun _ s' _ ↦ admitsAll_of_forall_none _ ?_ s'⟩
  · rintro p ⟨⟩ -
    refine ⟨by decide, by decide, fun r hr ↦ ?_⟩
    cases hr
  · exact List.forall_mem_cons.mpr ⟨rfl, List.forall_mem_cons.mpr ⟨rfl, List.forall_mem_nil _⟩⟩

end CacheShard

end HighCache
