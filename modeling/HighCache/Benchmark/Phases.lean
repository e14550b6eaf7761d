import HighCache.Benchmark.Accounting
import HighCache.Benchmark.Program
import Mathlib.Data.Rat.Floor
import Mathlib.Tactic.Linarith
import Mathlib.Tactic.NormNum

/-!
# The phases of a benchmark

Options that pass `validate_options` leave room for the ids of all requests, so `generate_workload`
accepts the counts it is given, and the ids of the plans that are executed are the numbers from one
on (`Completed.ids`). A plan is executed only if the ones before it have succeeded, every request of
them. The result is therefore about the measured plan alone, and it is about all of it
(`Ends.measured`).

The sizes have to be those of a machine (`FullOptions.Fits`): the products of `execute_plan` do not
wrap, and a `double` represents the counts.
-/

namespace HighCache

open Protocol

namespace Benchmark

variable {ρ γ : Type} {d : Doubles ρ} {r : Generator γ} {options : FullOptions ρ}

/-! ## Valid options

The checks, as one conjunction. The last of them are about sums that must not wrap, which is what
leaves room for the ids. -/

/-- What `validate_options` requires. -/
structure FullOptions.Valid (d : Doubles ρ) (options : FullOptions ρ) : Prop where
  host : options.host ≠ []
  port : options.port ≠ 0
  threads : options.threads ≠ 0
  connections : options.connections ≠ 0
  threads_le : options.threads ≤ options.connections
  requests : options.requests ≠ 0
  zero_le : d.lt options.getRatio d.zero = false
  le_one : d.lt d.one options.getRatio = false
  valueSize : options.valueSize ≤ Cache.maxValueLength
  keySpace : options.keySpace ≠ 0
  pipeline : options.pipeline ≠ 0
  pipeline_le : options.pipeline ≤ 1024
  /-- The ids are numbers above zero and below the largest. -/
  ids : options.keySpace + options.warmupRequests + options.requests ≤ 2 ^ 64 - 2

theorem ite_error_eq_ok_iff {ε α : Type} {c : Prop} [Decidable c] {e : ε} {x : Except ε α} {a : α} :
    (if c then .error e else x) = .ok a ↔ ¬c ∧ x = .ok a := by
  rw [ite_eq_iff]
  simp

theorem validateOptions_ok_iff : validateOptions d options = .ok () ↔ options.Valid d := by
  simp only [validateOptions, ite_error_eq_ok_iff, not_or, Bool.not_eq_true, Nat.not_lt, and_true]
  constructor
  · rintro ⟨hhost, hport, hthreads, hconnections, hrequests, hratio, hvalue, hspace, hpipeline,
      hids⟩
    exact {
      host := hhost
      port := hport
      threads := hthreads
      connections := hconnections.1
      threads_le := hconnections.2
      requests := hrequests
      zero_le := hratio.1
      le_one := hratio.2
      valueSize := hvalue
      keySpace := hspace
      pipeline := hpipeline.1
      pipeline_le := hpipeline.2
      ids := by omega }
  · intro h
    have hids := h.ids
    exact ⟨h.host, h.port, h.threads, ⟨h.connections, h.threads_le⟩, h.requests,
      ⟨h.zero_le, h.le_one⟩, h.valueSize, h.keySpace, ⟨h.pipeline, h.pipeline_le⟩, by omega⟩

/-- **The defaults are valid.** -/
theorem FullOptions.valid_default (d : Doubles ρ) : (default d).Valid d where
  host := show Scan.literal "127.0.0.1" ≠ [] by decide
  port := show (11211 : UInt16) ≠ 0 by decide
  threads := Nat.succ_ne_zero 7
  connections := Nat.succ_ne_zero 127
  threads_le := show 8 ≤ 128 by decide
  requests := Nat.succ_ne_zero 999999
  zero_le := d.zero_le_fourFifths
  le_one := d.fourFifths_le_one
  valueSize := show 256 ≤ Cache.maxValueLength by decide
  keySpace := Nat.succ_ne_zero 99999
  pipeline := Nat.succ_ne_zero 0
  pipeline_le := show 1 ≤ 1024 by decide
  ids := show 100000 + 10000 + 1000000 ≤ 2 ^ 64 - 2 by decide

/-- The counts are represented by a `double`, and their products with the threads do not wrap. -/
structure FullOptions.Fits (options : FullOptions ρ) : Prop where
  warmup_le : options.warmupRequests ≤ 2 ^ 53
  requests_le : options.requests ≤ 2 ^ 53
  preload_lt : options.keySpace * options.threads < 2 ^ 64
  warmup_lt : options.warmupRequests * options.threads < 2 ^ 64
  requests_lt : options.requests * options.threads < 2 ^ 64

/-- The number of requests in the longest of the plans. -/
def FullOptions.longestPlan (options : FullOptions ρ) : ℕ :=
  max options.keySpace (max options.warmupRequests options.requests)

/-! ## The plans

What is needed of a plan: its ids are the numbers from the first one on, and its keys are within the
key space. -/

/-- `count` ids from `first` on. -/
def idsFrom (first count : ℕ) : List UInt64 := (List.range' first count).map UInt64.ofNat

private theorem idsFrom_append (first m n : ℕ) :
    idsFrom first m ++ idsFrom (first + m) n = idsFrom first (m + n) := by
  rw [idsFrom, idsFrom, idsFrom, ← List.map_append, List.range'_append_1]

theorem length_idsFrom (first count : ℕ) : (idsFrom first count).length = count := by
  rw [idsFrom, List.length_map, List.length_range']

theorem toNat_ofNat {n : ℕ} (h : n < 2 ^ 64) : (UInt64.ofNat n).toNat = n :=
  UInt64.toNat_ofNat_of_lt' h

private theorem nodup_idsFrom {first count : ℕ} (h : first + count ≤ 2 ^ 64) :
    (idsFrom first count).Nodup := by
  refine List.Nodup.map_on ?_ List.nodup_range'
  intro a ha b hb heq
  rw [List.mem_range'_1] at ha hb
  have hto := congrArg UInt64.toNat heq
  rwa [toNat_ofNat (by omega), toNat_ofNat (by omega)] at hto

/-- A plan of `count` requests, whose ids go on from `first`. -/
structure Planned (keySpace first count : ℕ) (plan : List Operation) : Prop where
  ids : plan.map Operation.requestId = idsFrom first count
  opcode_valid : ∀ operation ∈ plan, isValidOpcode operation.opcode = true
  keyIndex_lt : ∀ operation ∈ plan, operation.keyIndex < keySpace

theorem Planned.length {keySpace first count : ℕ} {plan : List Operation}
    (h : Planned keySpace first count plan) : plan.length = count := by
  rw [← List.length_map Operation.requestId, h.ids, length_idsFrom]

theorem planned_makePreload (keySpace : ℕ) :
    Planned keySpace 1 keySpace (makePreload keySpace) where
  ids := by
    rw [makePreload, idsFrom, List.range'_eq_map_range, List.map_map, List.map_map]
    exact List.map_congr_left fun index _ ↦ congrArg UInt64.ofNat (Nat.add_comm index 1)
  opcode_valid := by
    intro operation hmem
    obtain ⟨index, -, rfl⟩ := List.mem_map.mp hmem
    rfl
  keyIndex_lt := by
    intro operation hmem
    obtain ⟨index, hindex, rfl⟩ := List.mem_map.mp hmem
    exact List.mem_range.mp hindex

section DrawKeys

variable (keySpace : ℕ)

theorem map_requestId_drawKeys (opcodes : List Opcode) (first : ℕ) (g : γ) :
    (drawKeys r keySpace opcodes (UInt64.ofNat first) g).map Operation.requestId
      = idsFrom first opcodes.length := by
  induction opcodes generalizing first g with
  | nil => rfl
  | cons opcode opcodes ih =>
    have hnext : UInt64.ofNat first + 1 = UInt64.ofNat (first + 1) :=
      (UInt64.ofNat_add first 1).symm
    rw [drawKeys, List.map_cons, hnext, ih]
    rfl

theorem map_opcode_drawKeys (opcodes : List Opcode) (requestId : UInt64) (g : γ) :
    (drawKeys r keySpace opcodes requestId g).map Operation.opcode = opcodes := by
  induction opcodes generalizing requestId g with
  | nil => rfl
  | cons opcode opcodes ih => rw [drawKeys, List.map_cons, ih]

theorem keyIndex_drawKeys {keySpace : ℕ} (hspace : keySpace ≠ 0) (opcodes : List Opcode)
    (requestId : UInt64) (g : γ) :
    ∀ operation ∈ drawKeys r keySpace opcodes requestId g, operation.keyIndex < keySpace := by
  induction opcodes generalizing requestId g with
  | nil => rintro operation ⟨⟩
  | cons opcode opcodes ih =>
    rw [drawKeys, List.forall_mem_cons]
    refine ⟨?_, ih _ _⟩
    have hle := r.uniform_le (keySpace - 1) g
    show (r.uniform (keySpace - 1) g).1 < keySpace
    omega

end DrawKeys

/-- A plan of `generate_workload`: as many of its requests are GETs as the ratio says, and the
others are SETs. -/
structure Mixed (d : Doubles ρ) (getRatio : ρ) (count : ℕ) (plan : List Operation) : Prop where
  opcodes : (plan.map Operation.opcode).Perm (List.replicate (d.llround count getRatio) .get
    ++ List.replicate (count - d.llround count getRatio) .set)
  gets_le : d.llround count getRatio ≤ count

/-- **`generate_workload` plans what it is asked for**, whatever the random numbers are. -/
theorem exists_generateWorkload {getRatio : ρ} {keySpace first count : ℕ} (hspace : keySpace ≠ 0)
    (hzero : d.lt getRatio d.zero = false) (hone : d.lt d.one getRatio = false)
    (hfinite : d.isFinite getRatio = true) (hcount : count ≤ 2 ^ 53) (hids : first + count < 2 ^ 64)
    (seed : UInt64) :
    ∃ plan, generateWorkload d r count getRatio keySpace seed (UInt64.ofNat first) = .ok (.ok plan)
      ∧ Planned keySpace first count plan ∧ Mixed d getRatio count plan := by
  have hle := d.llround_le count getRatio hfinite hzero hone hcount
  have hfirst : (UInt64.ofNat first).toNat = first := toNat_ofNat (by omega)
  have hlength : (List.replicate (d.llround count getRatio) Opcode.get
      ++ List.replicate (count - d.llround count getRatio) Opcode.set).length = count := by
    rw [List.length_append, List.length_replicate, List.length_replicate]
    omega
  have hperm := r.shuffle_perm (List.replicate (d.llround count getRatio) Opcode.get
    ++ List.replicate (count - d.llround count getRatio) Opcode.set) (r.seed seed)
  simp only [generateWorkload]
  -- none of the three checks fails
  rw [if_neg (by simp [hspace, hzero, hone, hfinite]), if_neg (by rw [hfirst]; omega),
    if_neg (Nat.not_lt.mpr hle)]
  refine ⟨_, rfl, ?_, ⟨by rwa [map_opcode_drawKeys], hle⟩⟩
  exact {
    ids := by rw [map_requestId_drawKeys, hperm.length_eq, hlength]
    opcode_valid := by
      intro operation hmem
      have hopcode := List.mem_map_of_mem (f := Operation.opcode) hmem
      rw [map_opcode_drawKeys, hperm.mem_iff, List.mem_append] at hopcode
      rcases hopcode with hget | hset
      · rw [List.eq_of_mem_replicate hget]
        rfl
      · rw [List.eq_of_mem_replicate hset]
        rfl
    keyIndex_lt := keyIndex_drawKeys hspace _ _ _ }

/-! ## One phase

A plan with distinct ids is executed, and each of its operations is counted once. -/

/-- Each request of the plan has been counted once, as successful or as failed. -/
structure Execution.Counted (x : Execution) : Prop where
  successful : x.statistics.successful = (x.threads.flatMap fun t ↦ t.tally.successes).length
  failed : x.statistics.failed = (x.threads.flatMap fun t ↦ t.tally.failures).length
  once : (x.threads.flatMap fun t ↦ t.tally.successes ++ t.tally.failures).Perm
    (x.plan.map Operation.requestId)

theorem Execution.Counted.handled {x : Execution} (h : x.Counted) :
    x.statistics.successful + x.statistics.failed = x.plan.length := by
  rw [h.successful, h.failed, ← length_flatMap_tally, h.once.length_eq, List.length_map]

theorem requireSuccess_ok_iff {x : Execution} {phase : String} :
    requireSuccess x phase = .ok () ↔ x.statistics.failed = 0 := by
  rw [requireSuccess]
  split_ifs with h
  · exact ⟨by rintro ⟨⟩, fun hzero ↦ absurd hzero h⟩
  · exact ⟨fun _ ↦ not_not.mp h, fun _ ↦ rfl⟩

private theorem length_makeBytes (size : ℕ) (g : γ) : (makeBytes r size g).length = size := by
  induction size generalizing g with
  | zero => rfl
  | succ size ih => exact congrArg Nat.succ (ih _)

private theorem length_makeValue (size : ℕ) (seed : UInt64) :
    (makeValue r size seed).length = size :=
  length_makeBytes size _

variable {answers : PhaseAnswers options.toOptions}

theorem execute_ensures (hvalid : options.Valid d) (phase : Phase) {first count : ℕ}
    {plan : List Operation} (hplan : Planned options.keySpace first count plan)
    (hids : first + count ≤ 2 ^ 64) (hsize : count * options.threads < 2 ^ 64)
    (hlongest : count ≤ options.longestPlan) :
    (execute r options answers phase plan).Ensures (fun x ↦ x.plan = plan ∧ x.Counted)
      (Outgrown options.longestPlan) := by
  have hbound := hvalid.ids
  have hload : options.keySpace < 2 ^ 64
      ∧ (makeValue r options.valueSize options.seed).length ≤ Cache.maxValueLength
      ∧ (∀ operation ∈ plan, isValidOpcode operation.opcode = true)
      ∧ ∀ operation ∈ plan, operation.keyIndex < options.keySpace :=
    ⟨by omega, (length_makeValue _ _).le.trans hvalid.valueSize, hplan.opcode_valid,
      hplan.keyIndex_lt⟩
  rw [execute, Workload.ofPlan, dif_pos hload, Except.ok_bind_eq]
  have hnodup : (plan.map Operation.requestId).Nodup := by
    rw [hplan.ids]
    exact nodup_idsFrom hids
  have hle : plan.length ≤ options.longestPlan := hplan.length.le.trans hlongest
  refine ((executePlan_sums (Nat.pos_of_ne_zero hvalid.threads) ?_ hnodup
    (answers phase)).mono_error ?_).bind ?_
  · show plan.length * options.threads < 2 ^ 64
    rwa [hplan.length]
  · exact fun _ ↦ Outgrown.mono hle
  · rintro ⟨statistics, threads⟩ ⟨hsuccessful, hfailed, hperm, -⟩
    exact ⟨rfl, hsuccessful, hfailed, hperm⟩

/-! ## All phases

A phase after the first begins where the one before has ended. `Completed` is about the phases that
have succeeded, `Ends` about what can come after them. -/

/-- Plans with `count` requests have been executed, and all of these have succeeded. -/
structure Completed (options : FullOptions ρ) (count : ℕ) (done : List Execution) : Prop where
  /-- The first plan has set every key. -/
  preload : ∀ x ∈ done.head?, x.plan = makePreload options.keySpace
  ids : (done.flatMap Execution.plan).map Operation.requestId = idsFrom 1 count
  counted : ∀ x ∈ done, x.Counted
  succeeded : ∀ x ∈ done, x.statistics.failed = 0

private theorem completed_nil : Completed options 0 [] where
  preload := by rintro x ⟨⟩
  ids := rfl
  counted := by rintro x ⟨⟩
  succeeded := by rintro x ⟨⟩

theorem Completed.snoc {n m : ℕ} {done : List Execution} (h : Completed options n done)
    {x : Execution} (hplan : Planned options.keySpace (1 + n) m x.plan) (hcounted : x.Counted)
    (hsucceeded : x.statistics.failed = 0)
    (hpreload : done = [] → x.plan = makePreload options.keySpace) :
    Completed options (n + m) (done ++ [x]) where
  preload := by
    intro y hy
    cases done with
    | nil =>
      cases hy
      exact hpreload rfl
    | cons z done =>
      cases hy
      exact h.preload _ rfl
  ids := by
    rw [List.flatMap_append, List.map_append, h.ids, List.flatMap_singleton, hplan.ids,
      idsFrom_append]
  counted := by
    rw [List.forall_mem_append, List.forall_mem_singleton]
    exact ⟨h.counted, hcounted⟩
  succeeded := by
    rw [List.forall_mem_append, List.forall_mem_singleton]
    exact ⟨h.succeeded, hsucceeded⟩

/-- The plans before the measured one have been executed and every request of them has succeeded:
the first plan, and if there is a warm-up the plan for it, mixed as the measured one. -/
structure Ready (d : Doubles ρ) (options : FullOptions ρ) (done : List Execution) : Prop where
  completed : Completed options (options.keySpace + options.warmupRequests) done
  length : done.length = if options.warmupRequests = 0 then 1 else 2
  mixed : ∀ x ∈ done.tail, Mixed d options.getRatio options.warmupRequests x.plan

/-- How `run_benchmark` ends. -/
inductive Ends (d : Doubles ρ) (options : FullOptions ρ) : Report → Prop where
  /-- The options are not valid. -/
  | refused {what : Bytes} (h : validateOptions d options = .error what) :
    Ends d options ⟨.error what, []⟩
  /-- A request of the first plan failed. -/
  | preloadFailed {x : Execution} {what : Bytes} (hplan : x.plan = makePreload options.keySpace)
    (hcounted : x.Counted) (h : requireSuccess x "preload" = .error what) :
    Ends d options ⟨.error what, [x]⟩
  /-- The first plan succeeded, and a request of the warm-up failed. -/
  | warmupFailed {preload x : Execution} {what : Bytes}
    (hdone : Completed options options.keySpace [preload]) (hwarmup : options.warmupRequests ≠ 0)
    (hplan : Planned options.keySpace (1 + options.keySpace) options.warmupRequests x.plan)
    (hmixed : Mixed d options.getRatio options.warmupRequests x.plan) (hcounted : x.Counted)
    (h : requireSuccess x "warmup" = .error what) :
    Ends d options ⟨.error what, [preload, x]⟩
  /-- The last plan has been executed, and the result is about this plan, failures included. -/
  | measured {done : List Execution} {x : Execution} (hready : Ready d options done)
    (hplan : Planned options.keySpace (1 + (options.keySpace + options.warmupRequests))
      options.requests x.plan)
    (hmixed : Mixed d options.getRatio options.requests x.plan) (hcounted : x.Counted) :
    Ends d options ⟨.ok x.statistics.finish, done ++ [x]⟩

section Phases

variable (hvalid : options.Valid d) (hfits : options.Fits)
  (hfinite : d.isFinite options.getRatio = true)
include hvalid hfits hfinite

theorem runMeasured_ends {done : List Execution} (hready : Ready d options done) :
    (runMeasured d r options answers done).Ensures (Ends d options)
      (Outgrown options.longestPlan) := by
  have hids := hvalid.ids
  have hfirst : measuredFirstId options
      = UInt64.ofNat (1 + (options.keySpace + options.warmupRequests)) := by
    rw [measuredFirstId, warmupFirstId, ← Nat.add_assoc, UInt64.ofNat_add, UInt64.ofNat_add,
      UInt64.add_comm (UInt64.ofNat 1)]
    rfl
  obtain ⟨plan, hgenerate, hplan, hmixed⟩ := exists_generateWorkload (r := r) hvalid.keySpace
    hvalid.zero_le hvalid.le_one hfinite hfits.requests_le
    (show 1 + (options.keySpace + options.warmupRequests) + options.requests < 2 ^ 64 by omega)
    options.seed
  rw [runMeasured, hfirst, hgenerate, Except.ok_bind_eq]
  refine (execute_ensures hvalid .measured hplan (by omega) hfits.requests_lt
    (le_max_of_le_right (le_max_right _ _))).bind ?_
  rintro x ⟨rfl, hcounted⟩
  exact .measured hready hplan hmixed hcounted

theorem runWarmup_ends {preload : Execution}
    (hdone : Completed options options.keySpace [preload]) :
    (runWarmup d r options answers [preload]).Ensures (Ends d options)
      (Outgrown options.longestPlan) := by
  have hids := hvalid.ids
  rw [runWarmup]
  split_ifs with hwarmup
  · have hfirst : warmupFirstId options = UInt64.ofNat (1 + options.keySpace) := by
      rw [warmupFirstId, UInt64.ofNat_add, UInt64.add_comm]
      rfl
    obtain ⟨plan, hgenerate, hplan, hmixed⟩ := exists_generateWorkload (r := r) hvalid.keySpace
      hvalid.zero_le hvalid.le_one hfinite hfits.warmup_le
      (show 1 + options.keySpace + options.warmupRequests < 2 ^ 64 by omega)
      (options.seed ^^^ 0x5741524D55504C4C)
    rw [hfirst, hgenerate, Except.ok_bind_eq]
    refine (execute_ensures hvalid .warmup hplan (by omega) hfits.warmup_lt
      (le_max_of_le_right (le_max_left _ _))).bind ?_
    rintro x ⟨rfl, hcounted⟩
    cases hsuccess : requireSuccess x "warmup" with
    | error what => exact .warmupFailed hdone hwarmup hplan hmixed hcounted hsuccess
    | ok _ =>
      refine runMeasured_ends hvalid hfits hfinite ⟨?_, (if_neg hwarmup).symm, ?_⟩
      · exact hdone.snoc hplan hcounted (requireSuccess_ok_iff.mp hsuccess)
          fun hnil ↦ absurd hnil (List.cons_ne_nil _ _)
      · rintro y (_ | ⟨_, ⟨⟩⟩)
        exact hmixed
  · -- there is no warm-up, and the ids go on after those of the preload
    rw [not_not] at hwarmup
    refine runMeasured_ends hvalid hfits hfinite ⟨?_, (if_pos hwarmup).symm, by rintro y ⟨⟩⟩
    rwa [hwarmup, Nat.add_zero]

end Phases

/-- **A benchmark measures its last plan, and all of it.** Whatever the sockets and the server do:
if there is a result, every key has been set before, every request before the measured ones has
succeeded, and each of the measured ones is counted once; the share of GETs among them is the one
that was asked for. If there is none, the options are not valid or a request failed, which is
counted. The ids of all requests are different, and above zero. -/
theorem runBenchmark_ends (answers : PhaseAnswers options.toOptions) (hfits : options.Fits)
    (hfinite : d.isFinite options.getRatio = true) :
    (runBenchmark d r options answers).Ensures (Ends d options)
      (Outgrown options.longestPlan) := by
  rw [runBenchmark]
  cases hvalidate : validateOptions d options with
  | error what => exact .refused hvalidate
  | ok _ =>
    have hvalid := validateOptions_ok_iff.mp hvalidate
    have hids := hvalid.ids
    have hplan := planned_makePreload options.keySpace
    refine (execute_ensures hvalid .preload hplan (by omega) hfits.preload_lt
      (le_max_left _ _)).bind ?_
    rintro x ⟨hx, hcounted⟩
    rw [← hx] at hplan
    cases hsuccess : requireSuccess x "preload" with
    | error what => exact .preloadFailed hx hcounted hsuccess
    | ok _ =>
      have hdone : Completed options (0 + options.keySpace) ([] ++ [x]) :=
        completed_nil.snoc hplan hcounted (requireSuccess_ok_iff.mp hsuccess) fun _ ↦ hx
      rw [Nat.zero_add] at hdone
      exact runWarmup_ends hvalid hfits hfinite hdone

/-- Rational numbers in place of `double`. Of texts only the whole numbers are read. -/
def rationals : Doubles ℚ where
  read text :=
    match fromChars text with
    | .error _ => none
    | .ok (n, rest) => some (n, rest)
  isFinite _ := true
  lt a b := decide (a < b)
  zero := 0
  one := 1
  fourFifths := 4 / 5
  llround count ratio := ⌊count * ratio + 1 / 2⌋₊
  llround_le count ratio hfinite hzero hone hcount := by
    rw [decide_eq_false_iff_not, not_lt] at hone
    have hle : (count : ℚ) * ratio ≤ count := mul_le_of_le_one_right (Nat.cast_nonneg _) hone
    refine Nat.lt_succ_iff.mp ((Nat.floor_lt' (Nat.succ_ne_zero _)).mpr ?_)
    push_cast
    linarith
  fourFifths_finite := rfl
  zero_le_fourFifths := by rw [decide_eq_false_iff_not]; norm_num
  fourFifths_le_one := by rw [decide_eq_false_iff_not]; norm_num

/-- A generator that leaves nothing to chance: plans stay as they are, and all draws are zero. -/
def forced : Generator Unit where
  seed _ := ()
  next g := (0, g)
  shuffle opcodes g := (opcodes, g)
  uniform _ g := (0, g)
  shuffle_perm _ _ := List.Perm.refl _
  uniform_le _ _ := Nat.zero_le _

/-- Everything is sent and the response with status `ok` comes. -/
def answered (requestId : UInt8) : ReadyEvent where
  fd := 5
  events := epollIn ||| epollOut
  sends := [.ofCount 100]
  receives := [.ofBytes (responseFrame 0 requestId [])]
  modified := .done

private theorem answered_pos (requestId : UInt8) : 0 < [answered requestId].length := Nat.one_pos

private theorem answered_le (requestId : UInt8) : [answered requestId].length ≤ maxEvents :=
  Nat.le_of_ble_eq_true rfl

/-- In each phase these requests are answered, one after the other. -/
def allAnswered (ids : Phase → List UInt8) (options : Options) : PhaseAnswers options :=
  fun phase _ ↦ {
    epoll := .done
    connects := fun _ ↦ .connected 5
    clock := fun k ↦ k
    modified := fun _ ↦ .done
    waits := (ids phase).map fun requestId ↦
      .ready [answered requestId] (answered_pos _) (answered_le _) }

/-- Two keys, a warm-up with one request and a measured plan with two. -/
private def twoKeys : FullOptions ℚ :=
  { FullOptions.default rationals with
    threads := 1, connections := 1, requests := 2, getRatio := 1 / 2, valueSize := 0, keySpace := 2,
    warmupRequests := 1 }

private def twoKeysIds : Phase → List UInt8
  | .preload => [1, 2]
  | .warmup => [3]
  | .measured => [4, 5]

/-- Both keys are set, the warm-up is a GET, and half of the measured requests are. -/
theorem runBenchmark_ends_two_keys :
    ∃ report, runBenchmark rationals forced twoKeys (allAnswered twoKeysIds twoKeys.toOptions)
        = .ok report
      ∧ report.result.toOption.map (fun result ↦ (result.requests, result.successful,
        result.getHits)) = some (2, 2, 1)
      ∧ report.executions.map (fun x ↦ x.plan.map fun o ↦ (o.opcode, o.requestId))
        = [[(.set, 1), (.set, 2)], [(.get, 3)], [(.get, 4), (.set, 5)]]
      ∧ Ends rationals twoKeys report := by
  have hfits : twoKeys.Fits := ⟨by decide, by decide, by decide, by decide, by decide⟩
  have hends : (runBenchmark rationals forced twoKeys
      (allAnswered twoKeysIds twoKeys.toOptions)).Ensures (Ends rationals twoKeys)
      (Outgrown twoKeys.longestPlan) := runBenchmark_ends _ hfits rfl
  have hresult : (runBenchmark rationals forced twoKeys
      (allAnswered twoKeysIds twoKeys.toOptions)).toOption.map (fun report ↦
        (report.result.toOption.map fun result ↦ (result.requests, result.successful,
          result.getHits), report.executions.map fun x ↦ x.plan.map fun o ↦
          (o.opcode, o.requestId)))
      = some (some (2, 2, 1), [[(.set, 1), (.set, 2)], [(.get, 3)], [(.get, 4), (.set, 5)]]) := by
    decide +kernel
  cases hrun : runBenchmark rationals forced twoKeys
      (allAnswered twoKeysIds twoKeys.toOptions) with
  | error fault =>
    rw [hrun] at hresult
    cases hresult
  | ok report =>
    rw [hrun] at hresult hends
    obtain ⟨hresult, hplans⟩ := Prod.mk.inj (Option.some.inj hresult)
    exact ⟨report, rfl, hresult, hplans, hends⟩

end Benchmark

end HighCache
