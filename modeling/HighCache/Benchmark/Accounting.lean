import HighCache.Benchmark.WorkerAccount
import HighCache.Benchmark.WorkerBuffers

/-!
# Every operation is counted once

`execute_plan` cuts the plan into one part for each thread, runs a worker on each and merges what
they have counted. The parts lie end to end and each worker counts the operations of its own part,
so over all threads each operation of the plan is counted once.

The only thing that stops the model is a buffer that would exceed the largest vector, and there is
none unless the requests of the plan are longer (`Outgrown`).
-/

namespace HighCache

open Protocol

namespace Benchmark

/-! ## The threads

The part of thread `i` of `n` goes from `size * i / n` to `size * (i + 1) / n`. The boundaries are
increasing, begin with zero and end with the size of the plan, and so the parts make up the plan. -/

/-- The first operation of a thread. -/
def boundary (options : Options) (load : Workload) (i : ℕ) : ℕ :=
  load.plan.length * i / options.threads

/-- The thread has counted each operation of its part once, and its account was always right. -/
structure ThreadResult.Counts (options : Options) (load : Workload) (i : ℕ) (r : ThreadResult) :
    Prop where
  slice : options.slice load.plan.length i
    = .ok (boundary options load i, boundary options load (i + 1))
  ids : (r.tally.successes ++ r.tally.failures).Perm
    (load.idsBetween (boundary options load i) (boundary options load (i + 1)))
  successful : r.statistics.successful = r.tally.successes.length
  failed : r.statistics.failed = r.tally.failures.length
  history : ∀ books ∈ r.history, books.handled + books.pending + books.unissued
    = boundary options load (i + 1) - boundary options load i

section Threads

variable {options : Options} {load : Workload}

theorem monotone_boundary : Monotone (boundary options load) :=
  fun _ _ h ↦ Nat.div_le_div_right (Nat.mul_le_mul_left _ h)

private theorem boundary_zero : boundary options load 0 = 0 := by
  rw [boundary, Nat.mul_zero, Nat.zero_div]

private theorem flatMap_idsBetween (m : ℕ) :
    (List.range m).flatMap
        (fun i ↦ load.idsBetween (boundary options load i) (boundary options load (i + 1)))
      = (load.plan.take (boundary options load m)).map Operation.requestId := by
  rw [← Families.flatMap_slices monotone_boundary boundary_zero, List.map_flatMap]
  rfl

/-- What the threads have counted is counted once more when their statistics are combined. -/
theorem foldl_merge {is : List ℕ} {results : List ThreadResult}
    (h : List.Forall₂ (ThreadResult.Counts options load) is results) (s : Statistics) :
    (results.foldl (fun combined r ↦ combined.merge r.statistics) s).successful
        = s.successful + (results.flatMap fun r ↦ r.tally.successes).length
      ∧ (results.foldl (fun combined r ↦ combined.merge r.statistics) s).failed
        = s.failed + (results.flatMap fun r ↦ r.tally.failures).length := by
  induction h generalizing s with
  | nil => exact ⟨rfl, rfl⟩
  | @cons i r is results hcounts hrest ih =>
    obtain ⟨hsuccessful, hfailed⟩ := ih (s.merge r.statistics)
    rw [List.foldl_cons, List.flatMap_cons, List.flatMap_cons, List.length_append,
      List.length_append, hsuccessful, hfailed, ← hcounts.successful, ← hcounts.failed]
    exact ⟨Nat.add_assoc _ _ _, Nat.add_assoc _ _ _⟩

private theorem perm_flatMap_counted {is : List ℕ} {results : List ThreadResult}
    (h : List.Forall₂ (ThreadResult.Counts options load) is results) :
    (results.flatMap fun r ↦ r.tally.successes ++ r.tally.failures).Perm
      (is.flatMap fun i ↦ load.idsBetween (boundary options load i)
        (boundary options load (i + 1))) := by
  induction h with
  | nil => exact .nil
  | cons hcounts hrest ih => exact hcounts.ids.append ih

variable (hthreads : 1 ≤ options.threads)
  (hsize : load.plan.length * options.threads < 2 ^ 64)

section

include hthreads

theorem boundary_threads : boundary options load options.threads = load.plan.length :=
  Nat.mul_div_cancel _ hthreads

end

section

include hsize

theorem slice_eq {i : ℕ} (hi : i < options.threads) :
    options.slice load.plan.length i
      = .ok (boundary options load i, boundary options load (i + 1)) := by
  have hafter : load.plan.length * (i + 1) < Checked.wordSize :=
    (Nat.mul_le_mul_left _ hi).trans_lt hsize
  have hbefore : load.plan.length * i < Checked.wordSize :=
    (Nat.mul_le_mul_left _ (Nat.le_succ i)).trans_lt hafter
  rw [Options.slice, Checked.mul_eq hbefore, Checked.mul_eq hafter]
  rfl

end

variable (hids : (load.plan.map Operation.requestId).Nodup)
include hthreads hsize hids

theorem runThread_counts {i : ℕ} (hi : i < options.threads)
    (answers : Answers (options.connectionCount i)) :
    (runThread options load i answers).Ensures (ThreadResult.Counts options load i)
      Buffer.Full := by
  have hle : boundary options load i ≤ boundary options load (i + 1) :=
    monotone_boundary (Nat.le_succ i)
  have hend : boundary options load (i + 1) ≤ load.plan.length :=
    (monotone_boundary hi).trans (boundary_threads hthreads).le
  rw [runThread, slice_eq hsize hi, Except.ok_bind_eq]
  dsimp only
  cases hnew : ClientWorker.new
      ⟨load, options.pipeline, boundary options load i, boundary options load (i + 1)⟩ answers with
  | error what =>
    dsimp only
    rw [Checked.sub_eq hle, Except.ok_bind_eq]
    refine ⟨slice_eq hsize hi, List.Perm.refl _, rfl, ?_, by simp⟩
    show 0 + _ = _
    rw [Nat.zero_add, load.length_idsBetween hend]
  | ok worker =>
    obtain ⟨hbalanced, hactive⟩ := ClientWorker.balanced_new hle hend hnew
    refine (hbalanced.run hids hactive answers).bind ?_
    rintro worker' ⟨hworker, hhandled⟩
    exact ⟨slice_eq hsize hi, hworker.perm_of_handled hhandled, hworker.successful,
      hworker.failed, hworker.noted⟩

theorem runThreads_counts (answers : (i : ℕ) → Answers (options.connectionCount i)) (is : List ℕ)
    (his : ∀ i ∈ is, i < options.threads) :
    (runThreads options load answers is).Ensures
      (List.Forall₂ (ThreadResult.Counts options load) is) Buffer.Full := by
  induction is with
  | nil => exact .nil
  | cons i is ih =>
    rw [List.forall_mem_cons] at his
    refine (runThread_counts hthreads hsize hids his.1 (answers i)).bind fun result hresult ↦ ?_
    exact (ih his.2).bind fun results hresults ↦ .cons hresult hresults

theorem executePlan_sums (answers : (i : ℕ) → Answers (options.connectionCount i)) :
    (executePlan options load answers).Ensures
      (fun r ↦ r.1.successful = (r.2.flatMap fun t ↦ t.tally.successes).length
        ∧ r.1.failed = (r.2.flatMap fun t ↦ t.tally.failures).length
        ∧ (r.2.flatMap fun t ↦ t.tally.successes ++ t.tally.failures).Perm
          (load.plan.map Operation.requestId)
        ∧ List.Forall₂ (ThreadResult.Counts options load) (List.range options.threads) r.2)
      (Outgrown load.plan.length) := by
  refine ensures_outgrown ?_ (executePlan_excused options load answers)
  refine (runThreads_counts hthreads hsize hids answers (List.range options.threads)
    fun i hi ↦ List.mem_range.mp hi).bind fun results hresults ↦ ?_
  obtain ⟨hsuccessful, hfailed⟩ := foldl_merge hresults {}
  have hperm := perm_flatMap_counted hresults
  rw [flatMap_idsBetween, boundary_threads hthreads, List.take_length] at hperm
  exact ⟨by rw [hsuccessful]; exact Nat.zero_add _, by rw [hfailed]; exact Nat.zero_add _, hperm,
    hresults⟩

end Threads

/-! ## Every plan -/

theorem length_flatMap_tally (results : List ThreadResult) :
    (results.flatMap fun t ↦ t.tally.successes ++ t.tally.failures).length
      = (results.flatMap fun t ↦ t.tally.successes).length
        + (results.flatMap fun t ↦ t.tally.failures).length := by
  simp only [List.length_flatMap, List.length_append, List.sum_map_add]

/-- **Every planned operation is counted once.** The parts of the threads are a partition of the
plan. `execute_plan` returns, unless the requests are too long for a buffer, and then every
operation of the plan has been counted once, as successful or as failed. While a worker ran, what it
had handled, what was under way and what it had not issued always added up to its part. -/
theorem executePlan_counts (options : Options) (load : Workload)
    (answers : (i : ℕ) → Answers (options.connectionCount i))
    (hids : (load.plan.map Operation.requestId).Nodup) (hthreads : 1 ≤ options.threads)
    (hsize : load.plan.length * options.threads < 2 ^ 64) :
    (∀ k < load.plan.length, ∃! i, i < options.threads
        ∧ ∃ b e, options.slice load.plan.length i = .ok (b, e) ∧ b ≤ k ∧ k < e)
      ∧ (executePlan options load answers).Ensures
        (fun r ↦ r.1.handled = load.plan.length
          ∧ r.1.successful = (r.2.flatMap fun t ↦ t.tally.successes).length
          ∧ r.1.failed = (r.2.flatMap fun t ↦ t.tally.failures).length
          ∧ (r.2.flatMap fun t ↦ t.tally.successes ++ t.tally.failures).Perm
            (load.plan.map Operation.requestId)
          ∧ List.Forall₂ (fun i t ↦ ∃ b e, options.slice load.plan.length i = .ok (b, e)
              ∧ ∀ books ∈ t.history, books.handled + books.pending + books.unissued = e - b)
            (List.range options.threads) r.2)
        (Outgrown load.plan.length) := by
  constructor
  · intro k hk
    have hzero : boundary options load 0 ≤ k := by
      rw [boundary_zero]
      exact Nat.zero_le k
    have hlast : k < boundary options load options.threads := by rwa [boundary_threads hthreads]
    obtain ⟨i, ⟨hi, hbetween⟩, hunique⟩ :=
      Families.existsUnique_between monotone_boundary hzero hlast
    refine ⟨i, ⟨hi, _, _, slice_eq hsize hi, hbetween⟩, ?_⟩
    rintro j ⟨hj, b, e, hslice, hbetween'⟩
    rw [slice_eq hsize hj] at hslice
    cases hslice
    exact hunique j ⟨hj, hbetween'⟩
  · refine (executePlan_sums hthreads hsize hids answers).mono ?_
    rintro r ⟨hsuccessful, hfailed, hperm, hresults⟩
    refine ⟨?_, hsuccessful, hfailed, hperm,
      hresults.imp fun i t ht ↦ ⟨_, _, ht.slice, ht.history⟩⟩
    rw [Statistics.handled, hsuccessful, hfailed, ← length_flatMap_tally, hperm.length_eq,
      List.length_map]

/-- Two operations of `make_preload`. -/
private def preloadOfTwo : Workload :=
  .preload 2 [7] (Nat.le_of_ble_eq_true rfl) (Nat.le_of_ble_eq_true rfl)

/-- The first thread gets its response, the second cannot connect. -/
private def oneRefused (i : ℕ) : Answers (Options.connectionCount ⟨2, 2, 1⟩ i) where
  epoll := .done
  connects _ := if i = 0 then .connected 5 else .refused "Connection refused"
  clock k := k
  modified _ := .done
  waits := [.ready [{
    fd := 5
    events := epollIn ||| epollOut
    sends := [.ofCount 100]
    receives := [.ofBytes (responseFrame 0 1 [])]
    modified := .done }] (Nat.le_of_ble_eq_true rfl) (Nat.le_of_ble_eq_true rfl)]

theorem executePlan_counts_refused :
    (preloadOfTwo.plan.map Operation.requestId).Nodup ∧ 1 ≤ 2
      ∧ preloadOfTwo.plan.length * 2 < 2 ^ 64
      ∧ ∃ r, executePlan ⟨2, 2, 1⟩ preloadOfTwo oneRefused = .ok r
        ∧ r.1 = {
          successful := 1
          failed := 1
          latencies := [1]
          errors := ["connect failed: Connection refused"] }
        ∧ r.1.handled = 2
        ∧ (r.2.flatMap fun t ↦ t.tally.successes ++ t.tally.failures).Perm [1, 2] := by
  have hids : (preloadOfTwo.plan.map Operation.requestId).Nodup := by decide
  have hcounts := (executePlan_counts ⟨2, 2, 1⟩ preloadOfTwo oneRefused hids (by decide)
    (by decide)).2
  have hstatistics : ((executePlan ⟨2, 2, 1⟩ preloadOfTwo oneRefused).toOption.map Prod.fst)
      = some {
        successful := 1
        failed := 1
        latencies := [1]
        errors := ["connect failed: Connection refused"] } := by decide +kernel
  refine ⟨hids, by decide, by decide, ?_⟩
  cases hrun : executePlan ⟨2, 2, 1⟩ preloadOfTwo oneRefused with
  | error fault =>
    rw [hrun] at hstatistics
    cases hstatistics
  | ok r =>
    rw [hrun] at hstatistics hcounts
    exact ⟨r, rfl, Option.some.inj hstatistics, hcounts.1, hcounts.2.2.2.1⟩

end Benchmark

end HighCache
