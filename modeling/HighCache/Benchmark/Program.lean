import HighCache.Benchmark.Client
import HighCache.Config.Config

/-!
# The benchmark program

`benchmark.cpp` around `execute_plan`: the arguments are read and checked, and three plans are
executed, one that writes every key, one to warm up, and one that is measured. The ids of the
requests go on from one plan to the next.

## What the standard library decides

The share of GETs is a `double`, and the plans are shuffled and the keys drawn with random numbers.
Both come as parameters, `Doubles` and `Generator`, with what is documented of them: a share between
zero and one of a number of requests that a `double` represents is no more than all of them, a
shuffled list is a permutation, and a drawn number does not exceed the maximum. For more than
`2 ^ 53` requests the rounding of `static_cast<double>` can be upwards, and nothing is said.

A message may quote an argument, so it is a string of bytes.
-/

namespace HighCache

open Protocol Scan

namespace Benchmark

/-- The numbers of type `double` that `Options::get_ratio` can be, and what is done with them. -/
structure Doubles (ρ : Type) where
  /-- `std::from_chars`, and what comes after the number. -/
  read : Bytes → Option (ρ × Bytes)
  isFinite : ρ → Bool
  lt : ρ → ρ → Bool
  zero : ρ
  one : ρ
  /-- The default ratio, `0.8`. -/
  fourFifths : ρ
  /-- `std::llround(static_cast<double>(count) * ratio)`. -/
  llround : ℕ → ρ → ℕ
  llround_le : ∀ count ratio, isFinite ratio = true → lt ratio zero = false →
    lt one ratio = false → count ≤ 2 ^ 53 → llround count ratio ≤ count
  fourFifths_finite : isFinite fourFifths = true
  zero_le_fourFifths : lt fourFifths zero = false
  fourFifths_le_one : lt one fourFifths = false

/-- `std::mt19937_64`, and what is drawn with it. -/
structure Generator (γ : Type) where
  seed : UInt64 → γ
  next : γ → UInt64 × γ
  /-- `std::shuffle`. -/
  shuffle : List Opcode → γ → List Opcode × γ
  /-- `std::uniform_int_distribution` from zero to a maximum. -/
  uniform : ℕ → γ → ℕ × γ
  shuffle_perm : ∀ opcodes g, (shuffle opcodes g).1.Perm opcodes
  uniform_le : ∀ maximum g, (uniform maximum g).1 ≤ maximum

variable {ρ γ : Type}

/-! ## The arguments

The messages quote the option they are about. Options that take a value have it as the next
argument, whatever that looks like. -/

/-- `Options`. -/
structure FullOptions (ρ : Type) extends Options where
  host : Bytes
  port : UInt16
  requests : ℕ
  getRatio : ρ
  valueSize : ℕ
  keySpace : ℕ
  seed : UInt64
  warmupRequests : ℕ
  csv : Bool
  help : Bool

/-- `Options{}`. -/
def FullOptions.default (d : Doubles ρ) : FullOptions ρ where
  host := literal "127.0.0.1"
  port := 11211
  threads := 8
  connections := 128
  requests := 1000000
  getRatio := d.fourFifths
  valueSize := 256
  keySpace := 100000
  seed := 12345
  warmupRequests := 10000
  pipeline := 1
  csv := false
  help := false

/-- `parse_unsigned`. -/
def parseUnsigned (value option : Bytes) : Except Bytes ℕ :=
  match fromChars value with
  | .error _ => .error (option ++ literal " expects an unsigned integer")
  | .ok (parsed, rest) =>
    if rest ≠ [] then .error (option ++ literal " expects an unsigned integer") else .ok parsed

/-- `parse_ratio`. -/
def parseRatio (d : Doubles ρ) (value option : Bytes) : Except Bytes ρ :=
  match d.read value with
  | none => .error (option ++ literal " expects a finite decimal number")
  | some (parsed, rest) =>
    if rest ≠ [] ∨ d.isFinite parsed = false then
      .error (option ++ literal " expects a finite decimal number")
    else .ok parsed

/-- `checked_size`. -/
def checkedSize (value : ℕ) (option : Bytes) : Except Bytes ℕ :=
  if value > 2 ^ 64 - 1 then .error (option ++ literal " is too large") else .ok value

/-- `checked_size(parse_unsigned(value, option), option)`. -/
def parseSize (value option : Bytes) : Except Bytes ℕ := do
  let parsed ← parseUnsigned value option
  checkedSize parsed option

/-- The branch of `--port`. -/
def parsePort (value option : Bytes) : Except Bytes UInt16 := do
  let port ← parseUnsigned value option
  if port = 0 ∨ port > 65535 then .error (literal "--port must be between 1 and 65535")
  else .ok (UInt16.ofNat port)

/-- The options that take a value. -/
def valued : List Bytes :=
  ["--host", "--port", "--threads", "--connections", "--requests", "--get-ratio", "--value-size",
    "--key-space", "--seed", "--warmup-requests", "--pipeline"].map literal

/-- The branches of `parse_options` for the options that take a value. -/
def setValue (d : Doubles ρ) (argument value : Bytes) (options : FullOptions ρ) :
    Except Bytes (FullOptions ρ) :=
  if argument = literal "--host" then .ok { options with host := value }
  else if argument = literal "--port" then do
    let port ← parsePort value argument
    .ok { options with port := port }
  else if argument = literal "--threads" then do
    let threads ← parseSize value argument
    .ok { options with threads := threads }
  else if argument = literal "--connections" then do
    let connections ← parseSize value argument
    .ok { options with connections := connections }
  else if argument = literal "--requests" then do
    let requests ← parseSize value argument
    .ok { options with requests := requests }
  else if argument = literal "--get-ratio" then do
    let getRatio ← parseRatio d value argument
    .ok { options with getRatio := getRatio }
  else if argument = literal "--value-size" then do
    let valueSize ← parseSize value argument
    .ok { options with valueSize := valueSize }
  else if argument = literal "--key-space" then do
    let keySpace ← parseSize value argument
    .ok { options with keySpace := keySpace }
  else if argument = literal "--seed" then do
    let seed ← parseUnsigned value argument
    .ok { options with seed := UInt64.ofNat seed }
  else if argument = literal "--warmup-requests" then do
    let warmupRequests ← parseSize value argument
    .ok { options with warmupRequests := warmupRequests }
  else if argument = literal "--pipeline" then do
    let pipeline ← parseSize value argument
    .ok { options with pipeline := pipeline }
  else .error (literal "unknown benchmark option: " ++ argument)

/-- The loop of `parse_options`. -/
def parseLoop (d : Doubles ρ) : List Bytes → FullOptions ρ → Except Bytes (FullOptions ρ)
  | [], options => .ok options
  | argument :: arguments, options =>
    if argument = literal "--help" then parseLoop d arguments { options with help := true }
    else if argument = literal "--csv" then parseLoop d arguments { options with csv := true }
    else if argument ∈ valued then
      match arguments with
      | [] => .error (argument ++ literal " requires a value")
      | value :: arguments => do
        let options ← setValue d argument value options
        parseLoop d arguments options
    else .error (literal "unknown benchmark option: " ++ argument)

/-- `validate_options`. -/
def validateOptions (d : Doubles ρ) (options : FullOptions ρ) : Except Bytes Unit :=
  if options.host = [] then .error (literal "--host must not be empty")
  else if options.port = 0 then .error (literal "--port must be between 1 and 65535")
  else if options.threads = 0 then .error (literal "--threads must be greater than zero")
  else if options.connections = 0 ∨ options.connections < options.threads then
    .error (literal "--connections must be at least the thread count")
  else if options.requests = 0 then .error (literal "--requests must be greater than zero")
  else if d.lt options.getRatio d.zero ∨ d.lt d.one options.getRatio then
    .error (literal "--get-ratio must be between 0 and 1")
  else if options.valueSize > Cache.maxValueLength then
    .error (literal "--value-size exceeds the cache maximum")
  else if options.keySpace = 0 then .error (literal "--key-space must be greater than zero")
  else if options.pipeline = 0 ∨ options.pipeline > 1024 then
    .error (literal "--pipeline must be between 1 and 1024")
  else
    let maximumIdCount := 2 ^ 64 - 2
    if options.keySpace > maximumIdCount
        ∨ options.warmupRequests > maximumIdCount - options.keySpace
        ∨ options.requests > maximumIdCount - options.keySpace - options.warmupRequests then
      .error (literal "benchmark request_id range overflows")
    else .ok ()

/-- `parse_options`. -/
def parseOptions (d : Doubles ρ) (arguments : List Bytes) : Except Bytes (FullOptions ρ) := do
  let options ← parseLoop d arguments (.default d)
  if options.help then .ok options
  else do
    validateOptions d options
    .ok options

/-! ## The plans

The preload plan sets each key once, in order. A generated plan has a given number of GETs, shuffled
among SETs, each on a key that was drawn. -/

/-- The loop of `make_value`. -/
def makeBytes (r : Generator γ) : ℕ → γ → Bytes
  | 0, _ => []
  | size + 1, g => UInt8.ofNat (r.next g).1.toNat :: makeBytes r size (r.next g).2

/-- `make_value`. -/
def makeValue (r : Generator γ) (size : ℕ) (seed : UInt64) : Bytes :=
  makeBytes r size (r.seed (seed ^^^ 0x56414C5545554C4C))

/-- The last loop of `generate_workload`. -/
def drawKeys (r : Generator γ) (keySpace : ℕ) : List Opcode → UInt64 → γ → List Operation
  | [], _, _ => []
  | opcode :: opcodes, requestId, g =>
    ⟨opcode, (r.uniform (keySpace - 1) g).1, requestId⟩
      :: drawKeys r keySpace opcodes (requestId + 1) (r.uniform (keySpace - 1) g).2

/-- `generate_workload`. To fill more than the vector is undefined. -/
def generateWorkload (d : Doubles ρ) (r : Generator γ) (requestCount : ℕ) (getRatio : ρ)
    (keySpace : ℕ) (seed firstRequestId : UInt64) :
    Except Fault (Except Bytes (List Operation)) :=
  if keySpace = 0 ∨ d.lt getRatio d.zero ∨ d.lt d.one getRatio ∨ d.isFinite getRatio = false then
    .ok (.error (literal "invalid workload generation parameters"))
  else if requestCount ≠ 0 ∧ firstRequestId.toNat > 2 ^ 64 - 1 - (requestCount - 1) then
    .ok (.error (literal "workload request_id range overflows"))
  else
    let getCount := d.llround requestCount getRatio
    if getCount > requestCount then .error .invalidIterator
    else
      let opcodes := List.replicate getCount .get ++ List.replicate (requestCount - getCount) .set
      let (opcodes, g) := r.shuffle opcodes (r.seed seed)
      .ok (.ok (drawKeys r keySpace opcodes firstRequestId g))

/-! ## The phases

The plans are executed in their order, and a plan is made only when the one before it has been
executed. What the network answers is given for each phase. -/

/-- The plans of `run_benchmark`. -/
inductive Phase where
  | preload
  | warmup
  | measured
  deriving DecidableEq, Repr

/-- A plan that has been executed, with the combined statistics and what its threads have left. -/
structure Execution where
  plan : List Operation
  statistics : Statistics
  threads : List ThreadResult

/-- `Result`, without what is computed with `double`. -/
structure Result where
  requests : ℕ
  successful : ℕ
  failed : ℕ
  getHits : ℕ
  getMisses : ℕ
  latencies : List ℤ
  errors : List String
  deriving DecidableEq, Repr

/-- `Statistics::finish`. -/
def Statistics.finish (s : Statistics) : Result where
  requests := s.handled
  successful := s.successful
  failed := s.failed
  getHits := s.getHits
  getMisses := s.getMisses
  latencies := s.latencies
  errors := s.errors

/-- How `run_benchmark` ends, and what it has executed. -/
structure Report where
  result : Except Bytes Result
  executions : List Execution

/-- The answers to all the calls of a benchmark. -/
def PhaseAnswers (options : Options) : Type :=
  Phase → (i : ℕ) → Answers (options.connectionCount i)

/-- The workload of a plan. One that draws a key out of range would read beyond the keys. -/
def Workload.ofPlan (keySpace : ℕ) (value : Bytes) (plan : List Operation) :
    Except Fault Workload :=
  if h : keySpace < 2 ^ 64 ∧ value.length ≤ Cache.maxValueLength
      ∧ (∀ operation ∈ plan, isValidOpcode operation.opcode = true)
      ∧ ∀ operation ∈ plan, operation.keyIndex < keySpace then
    .ok ⟨keySpace, value, plan, h.1, h.2.1, h.2.2.1, h.2.2.2⟩
  else .error .invalidIterator

/-- `require_success`. -/
def requireSuccess (execution : Execution) (phase : String) : Except Bytes Unit :=
  if execution.statistics.failed ≠ 0 then
    .error (literal phase ++ literal " failed for " ++ decimal execution.statistics.failed
      ++ literal " requests")
  else .ok ()

section Phases

variable (d : Doubles ρ) (r : Generator γ) (options : FullOptions ρ)
  (answers : PhaseAnswers options.toOptions)

/-- `execute_plan` for a phase. -/
def execute (phase : Phase) (plan : List Operation) : Except Fault Execution := do
  let load ← Workload.ofPlan options.keySpace (makeValue r options.valueSize options.seed) plan
  let (statistics, threads) ← executePlan options.toOptions load (answers phase)
  .ok ⟨plan, statistics, threads⟩

/-- `warmup_first_id`. -/
def warmupFirstId : UInt64 := UInt64.ofNat options.keySpace + 1

/-- `measured_first_id`. -/
def measuredFirstId : UInt64 := warmupFirstId options + UInt64.ofNat options.warmupRequests

/-- The last part of `run_benchmark`, after `done` has been executed. -/
def runMeasured (done : List Execution) : Except Fault Report := do
  match ← generateWorkload d r options.requests options.getRatio options.keySpace options.seed
      (measuredFirstId options) with
  | .error what => .ok ⟨.error what, done⟩
  | .ok plan => do
    let execution ← execute r options answers .measured plan
    .ok ⟨.ok execution.statistics.finish, done ++ [execution]⟩

/-- `run_benchmark` after the first phase. -/
def runWarmup (done : List Execution) : Except Fault Report :=
  if options.warmupRequests ≠ 0 then do
    match ← generateWorkload d r options.warmupRequests options.getRatio options.keySpace
        (options.seed ^^^ 0x5741524D55504C4C) (warmupFirstId options) with
    | .error what => .ok ⟨.error what, done⟩
    | .ok plan => do
      let execution ← execute r options answers .warmup plan
      match requireSuccess execution "warmup" with
      | .error what => .ok ⟨.error what, done ++ [execution]⟩
      | .ok () => runMeasured d r options answers (done ++ [execution])
  else runMeasured d r options answers done

/-- `run_benchmark`. -/
def runBenchmark : Except Fault Report :=
  match validateOptions d options with
  | .error what => .ok ⟨.error what, []⟩
  | .ok () => do
    let execution ← execute r options answers .preload (makePreload options.keySpace)
    match requireSuccess execution "preload" with
    | .error what => .ok ⟨.error what, [execution]⟩
    | .ok () => runWarmup d r options answers [execution]

end Phases

/-- How the process ends: its status, and what it has written to `std::cerr`. -/
structure Exit where
  status : ℕ
  err : Bytes
  deriving DecidableEq, Repr

/-- The handler of `main`. -/
def failed (what : Bytes) : Exit := ⟨1, literal "highcache_benchmark: " ++ what ++ literal "\n"⟩

/-- `main`, with what has been executed. -/
def main (d : Doubles ρ) (r : Generator γ) (arguments : List Bytes)
    (answers : (options : Options) → PhaseAnswers options) : Except Fault (Exit × List Execution) :=
  match parseOptions d arguments with
  | .error what => .ok (failed what, [])
  | .ok options =>
    if options.help then .ok (⟨0, []⟩, [])
    else do
      let report ← runBenchmark d r options (answers options.toOptions)
      match report.result with
      | .error what => .ok (failed what, report.executions)
      | .ok result => .ok (⟨if result.failed = 0 then 0 else 2, []⟩, report.executions)

end Benchmark

end HighCache
