import HighCache.Benchmark.Client
import HighCache.Lib.Families
import Mathlib.Algebra.BigOperators.Group.Multiset.Basic
import Mathlib.Tactic.Abel

/-!
# The account of a worker

An operation of a worker's part of the plan is in one of three places: it has not been issued, it is
under way on one connection, or it has been counted. As multisets of ids the three always add up to
the ids of the part (`Accounts.ids`), since whatever the worker does to them is to move ids from one
to the next. A connection that is not active has nothing under way.

There are three moves: ids are counted (`Balanced.settle`), the next operation is put under way
(`Accounts.issues`), and what is left of the part is counted as failed (`Balanced.failUnissued`).
-/

namespace HighCache

open Protocol

namespace Benchmark

/-! ## Parts of the plan

A part is the operations from one index to another, by their ids. -/

namespace Workload

variable (load : Workload) {i j : ℕ}

theorem length_idsBetween (hj : j ≤ load.plan.length) :
    (load.idsBetween i j).length = j - i := by
  rw [idsBetween, List.length_map, List.length_drop, List.length_take, min_eq_left hj]

private theorem idsBetween_self : load.idsBetween j j = [] := by
  rw [idsBetween, List.drop_eq_nil_of_le (List.length_take_le _ _), List.map_nil]

theorem idsBetween_cons (hi : i < j) {operation : Operation}
    (hoperation : load.plan[i]? = some operation) :
    load.idsBetween i j = operation.requestId :: load.idsBetween (i + 1) j := by
  have hget : (load.plan.take j)[i]? = some operation := by
    rw [List.getElem?_take, if_pos hi, hoperation]
  obtain ⟨hlt, hget⟩ := List.getElem?_eq_some_iff.mp hget
  rw [idsBetween, List.drop_eq_getElem_cons hlt, hget, List.map_cons]
  rfl

theorem nodup_idsBetween (h : (load.plan.map Operation.requestId).Nodup) (i j : ℕ) :
    (load.idsBetween i j).Nodup :=
  h.sublist (((List.drop_sublist _ _).trans (List.take_sublist _ _)).map _)

theorem exists_encodeRequest {operation : Operation} (hmem : operation ∈ load.plan) :
    ∃ key, (makeKeys load.keySpace)[operation.keyIndex]? = some key
      ∧ ∃ frame, encodeRequest {
        opcode := operation.opcode
        requestId := operation.requestId
        key := key
        value := if operation.opcode = .set then load.value else []
        ttlMs := 0 } = .ok frame := by
  have hindex := load.keyIndex_lt operation hmem
  have hkey : (Scan.literal "highcache-bench-" ++ Scan.decimal operation.keyIndex).length
      ≤ Cache.maxKeyLength := by
    have := Scan.length_decimal_le (hindex.trans load.keySpace_lt)
    rw [List.length_append, show (Scan.literal "highcache-bench-").length = 16 from rfl,
      Cache.maxKeyLength]
    omega
  have hvalue : (if operation.opcode = .set then load.value else []).length
      ≤ Cache.maxValueLength := by
    split_ifs
    · exact load.value_le
    · exact Nat.zero_le _
  have hbody : ¬((operation.opcode = .get ∨ operation.opcode = .erase)
      ∧ ((if operation.opcode = .set then load.value else []) ≠ [] ∨ (0 : UInt64) ≠ 0)) := by
    rintro ⟨hopcode, hbody⟩
    have hset : operation.opcode ≠ .set := by
      rcases hopcode with hopcode | hopcode <;> rw [hopcode] <;> decide
    rw [if_neg hset] at hbody
    simp at hbody
  have httl : ¬(0 : UInt64) > maxTtl := by decide
  refine ⟨Scan.literal "highcache-bench-" ++ Scan.decimal operation.keyIndex, ?_, ?_⟩
  · rw [makeKeys, List.getElem?_map, List.getElem?_range hindex]
    rfl
  · rw [encodeRequest, if_neg (by simp [load.opcode_valid operation hmem]),
      if_neg (not_or.mpr ⟨Nat.not_lt.mpr hkey, Nat.not_lt.mpr hvalue⟩), if_neg hbody,
      if_neg httl]
    exact ⟨_, rfl⟩

end Workload

@[simp] theorem RequestTracker.length_ids (t : RequestTracker) : t.ids.length = t.size :=
  List.length_map _

theorem RequestTracker.add_of_notMem {requestId : UInt64} {t : RequestTracker}
    (h : requestId ∉ t.ids) (opcode : Opcode) (start : ℤ) :
    t.add requestId opcode start = .ok ⟨t.pending ++ [(requestId, ⟨opcode, start⟩)]⟩ := by
  have hfind : KeyedList.find Prod.fst requestId t.pending = none :=
    KeyedList.find_eq_none.mpr fun x hx hkey ↦ h (hkey ▸ List.mem_map_of_mem hx)
  rw [add, hfind]

/-- A response that completes a request takes it off the tracker. -/
theorem RequestTracker.complete_eq_ok {response : Response} {finish : ℤ}
    {statistics statistics' : Statistics} {t t' : RequestTracker}
    (h : t.complete response finish statistics = .ok (statistics', t')) :
    ∃ request, (response.requestId, request) ∈ t.pending
      ∧ statistics' = statistics.recordResponse request.opcode response.status
        (finish - request.start)
      ∧ t' = ⟨KeyedList.without Prod.fst response.requestId t.pending⟩ := by
  rw [complete] at h
  cases hfind : KeyedList.find Prod.fst response.requestId t.pending with
  | none =>
    rw [hfind] at h
    cases h
  | some entry =>
    obtain ⟨id, request⟩ := entry
    obtain rfl : id = response.requestId := KeyedList.key_of_find hfind
    rw [hfind] at h
    cases h
    exact ⟨request, KeyedList.mem_of_find hfind, rfl, rfl⟩

theorem Statistics.recordResponse_cases (opcode : Opcode) (status : WireStatus) (latency : ℤ)
    (s : Statistics) :
    ((s.recordResponse opcode status latency).successful = s.successful + 1
        ∧ (s.recordResponse opcode status latency).failed = s.failed)
      ∨ (s.recordResponse opcode status latency).successful = s.successful
        ∧ (s.recordResponse opcode status latency).failed = s.failed + 1 := by
  simp only [recordResponse]
  split_ifs
  · exact .inl ⟨rfl, rfl⟩
  · exact .inl ⟨rfl, rfl⟩
  · exact .inl ⟨rfl, rfl⟩
  · exact .inr ⟨rfl, rfl⟩

/-! ## The account of a worker

The equation on multisets is the account, and the three numbers are its cardinalities. The
history holds the numbers at every stop, so that what is proved of the account is proved of the
whole run. -/

namespace ClientWorker

variable {job : Job} {n : ℕ} {w w' : ClientWorker job n}

theorem setConnection_self (i : Fin n) (c : ClientConnection) (w : ClientWorker job n) :
    (w.setConnection i c).connections i = c :=
  Function.update_self _ _ _

theorem setConnection_of_ne {i j : Fin n} (hj : j ≠ i) (c : ClientConnection)
    (w : ClientWorker job n) : (w.setConnection i c).connections j = w.connections j :=
  Function.update_of_ne hj _ _

theorem settle_self (i : Fin n) (c : ClientConnection) (statistics : Statistics) (tally : Tally)
    (w : ClientWorker job n) : (w.settle i c statistics tally).connections i = c :=
  Function.update_self _ _ _

theorem settle_of_ne {i j : Fin n} (hj : j ≠ i) (c : ClientConnection) (statistics : Statistics)
    (tally : Tally) (w : ClientWorker job n) :
    (w.settle i c statistics tally).connections j = w.connections j :=
  Function.update_of_ne hj _ _

/-- Where the operations are. -/
structure Accounts (w : ClientWorker job n) : Prop where
  begin_le : job.beginIndex ≤ w.next
  next_le : w.next ≤ job.endIndex
  end_le : job.endIndex ≤ job.load.plan.length
  ids : (↑(w.tally.successes ++ w.tally.failures) : Multiset UInt64)
      + ∑ i, (↑(w.connections i).tracker.ids : Multiset UInt64)
      + ↑(job.load.idsBetween w.next job.endIndex)
    = ↑(job.load.idsBetween job.beginIndex job.endIndex)
  successful : w.statistics.successful = w.tally.successes.length
  failed : w.statistics.failed = w.tally.failures.length
  /-- Nothing is under way on a connection that is not active. -/
  quiet : ∀ i, (w.connections i).active = false → (w.connections i).tracker.pending = []

/-- The account is right, and so it has been whenever it was taken down. -/
structure Balanced (w : ClientWorker job n) : Prop extends w.Accounts where
  noted : ∀ b ∈ w.history, b.handled + b.pending + b.unissued = job.endIndex - job.beginIndex

/-- **The three numbers add up.** -/
theorem Accounts.books (h : w.Accounts) :
    w.books.handled + w.books.pending + w.books.unissued = job.endIndex - job.beginIndex := by
  have hcard := congrArg Multiset.card h.ids
  simp only [Multiset.card_add, Multiset.coe_card, Multiset.card_sum, List.length_append,
    RequestTracker.length_ids, job.load.length_idsBetween h.end_le] at hcard
  show w.statistics.successful + w.statistics.failed + _ + _ = _
  rw [h.successful, h.failed]
  exact hcard

theorem Accounts.balanced_note (h : w.Accounts)
    (hnoted : ∀ b ∈ w.history, b.handled + b.pending + b.unissued = job.endIndex - job.beginIndex) :
    w.note.Balanced where
  __ := h
  noted b hb := by
    rcases List.mem_append.mp hb with hb | hb
    · exact hnoted b hb
    · rw [List.mem_singleton.mp hb]
      exact h.books

/-! ### What happens to the account

Each move is an equation on one connection and on the tally; the sum over the connections changes by
what the one connection has lost or gained. -/

/-- The ids in `moved` leave a connection and are counted. -/
theorem Balanced.settle (h : w.Balanced) {i : Fin n} {c : ClientConnection}
    {statistics : Statistics} {tally : Tally} {moved : List UInt64}
    (hleft : (w.connections i).tracker.ids.Perm (c.tracker.ids ++ moved))
    (htally : (tally.successes ++ tally.failures).Perm
      (w.tally.successes ++ w.tally.failures ++ moved))
    (hsuccessful : statistics.successful = tally.successes.length)
    (hfailed : statistics.failed = tally.failures.length)
    (hquiet : c.active = false → c.tracker.pending = []) :
    (w.settle i c statistics tally).Balanced := by
  refine Accounts.balanced_note ?_ h.noted
  -- the sum over the connections loses what the tally gains
  have hsum : ∑ j, (↑(w.connections j).tracker.ids : Multiset UInt64)
      = ∑ j, (↑((w.setConnection i c).connections j).tracker.ids : Multiset UInt64) + ↑moved := by
    refine Families.sum_eq_add (i := i) (fun j hj ↦ ?_) ?_
    · rw [setConnection_of_ne hj]
    · rw [setConnection_self]
      exact Multiset.coe_eq_coe.mpr hleft
  exact {
    begin_le := h.begin_le
    next_le := h.next_le
    end_le := h.end_le
    ids := by
      show (↑(tally.successes ++ tally.failures) : Multiset UInt64)
        + ∑ j, ↑((w.setConnection i c).connections j).tracker.ids
        + ↑(job.load.idsBetween w.next job.endIndex) = _
      rw [← h.ids, hsum, Multiset.coe_eq_coe.mpr htally, ← Multiset.coe_add]
      abel
    successful := hsuccessful
    failed := hfailed
    quiet := by
      intro j
      by_cases hj : j = i
      · subst hj
        rw [setConnection_self]
        exact hquiet
      · rw [setConnection_of_ne hj]
        exact h.quiet j }

/-- The next operation is under way on a connection that is active. -/
structure Issues (i : Fin n) (operation : Operation) (w w' : ClientWorker job n) : Prop where
  next : w'.next = w.next + 1
  planned : job.load.plan[w.next]? = some operation
  others : ∀ j, j ≠ i → w'.connections j = w.connections j
  added : (w'.connections i).tracker.ids = (w.connections i).tracker.ids ++ [operation.requestId]
  active : (w'.connections i).active = true
  tally : w'.tally = w.tally
  statistics : w'.statistics = w.statistics

theorem Accounts.issues {i : Fin n} {operation : Operation} (h : w.Accounts)
    (hissues : Issues i operation w w') (hlt : w.next < job.endIndex) : w'.Accounts where
  begin_le := by
    have := h.begin_le
    rw [hissues.next]
    omega
  next_le := by
    rw [hissues.next]
    exact hlt
  end_le := h.end_le
  ids := by
    have hsum : ∑ j, (↑(w'.connections j).tracker.ids : Multiset UInt64)
        = ∑ j, (↑(w.connections j).tracker.ids : Multiset UInt64) + {operation.requestId} := by
      refine Families.sum_eq_add (i := i) (fun j hj ↦ ?_) ?_
      · rw [hissues.others j hj]
      · rw [hissues.added]
        rfl
    have hunissued : (↑(job.load.idsBetween w.next job.endIndex) : Multiset UInt64)
        = {operation.requestId} + ↑(job.load.idsBetween (w.next + 1) job.endIndex) := by
      rw [job.load.idsBetween_cons hlt hissues.planned]
      rfl
    rw [← h.ids, hsum, hunissued, hissues.tally, hissues.next]
    abel
  successful := by rw [hissues.statistics, hissues.tally, h.successful]
  failed := by rw [hissues.statistics, hissues.tally, h.failed]
  quiet j hj := by
    by_cases hji : j = i
    · subst hji
      rw [hissues.active] at hj
      cases hj
    · rw [hissues.others j hji] at hj ⊢
      exact h.quiet j hj

theorem Balanced.failUnissued (h : w.Balanced) : w.failUnissued.Balanced := by
  rw [ClientWorker.failUnissued]
  split_ifs with hlt
  · refine Accounts.balanced_note ?_ h.noted
    exact {
      begin_le := h.begin_le.trans h.next_le
      next_le := le_refl _
      end_le := h.end_le
      ids := by
        show (↑(w.tally.successes
            ++ (w.tally.failures ++ job.load.idsBetween w.next job.endIndex)) : Multiset UInt64)
          + ∑ i, ↑(w.connections i).tracker.ids
          + ↑(job.load.idsBetween job.endIndex job.endIndex) = _
        rw [← h.ids, job.load.idsBetween_self, ← List.append_assoc, ← Multiset.coe_add,
          Multiset.coe_nil, add_zero]
        exact add_right_comm _ _ _
      successful := h.successful
      failed := by
        show w.statistics.failed + _ = _
        rw [List.length_append, job.load.length_idsBetween h.end_le, h.failed]
      quiet := h.quiet }
  · exact h

theorem Balanced.congr (h : w.Balanced) (hnext : w'.next = w.next)
    (hconnections : ∀ i, (w'.connections i).tracker = (w.connections i).tracker
      ∧ (w'.connections i).active = (w.connections i).active)
    (hsuccessful : w'.statistics.successful = w.statistics.successful)
    (hfailed : w'.statistics.failed = w.statistics.failed) (htally : w'.tally = w.tally)
    (hhistory : w'.history = w.history) : w'.Balanced where
  begin_le := hnext ▸ h.begin_le
  next_le := hnext ▸ h.next_le
  end_le := h.end_le
  ids := by
    simp only [hconnections, hnext, htally]
    exact h.ids
  successful := by rw [hsuccessful, htally, h.successful]
  failed := by rw [hfailed, htally, h.failed]
  quiet i := by
    rw [(hconnections i).1, (hconnections i).2]
    exact h.quiet i
  noted := hhistory ▸ h.noted

end ClientWorker

end Benchmark

end HighCache
