import HighCache.Benchmark.Phases
import HighCache.Config.Accepted

/-!
# The arguments of a benchmark

What `parse_options` accepts, said without the parser: the arguments are a sequence of flags, each a
word or a word and its value (`Flag.Denotes`), and a later flag overrides an earlier one. Where help
is asked for, nothing else is checked.

The status of the process is zero exactly if help was asked for or every request of every phase has
succeeded (`main_status_zero_iff`).
-/

namespace HighCache

open Protocol Scan

namespace Benchmark

/-! ## Flags -/

/-- An option with its value. -/
inductive Flag (ρ : Type) where
  | help
  | csv
  | host (text : Bytes)
  | port (number : UInt16)
  | threads (count : ℕ)
  | connections (count : ℕ)
  | requests (count : ℕ)
  | getRatio (ratio : ρ)
  | valueSize (size : ℕ)
  | keySpace (count : ℕ)
  | seed (number : UInt64)
  | warmupRequests (count : ℕ)
  | pipeline (depth : ℕ)

variable {ρ γ : Type} {d : Doubles ρ} {r : Generator γ}

namespace Flag

/-- The options after a flag. -/
def apply (options : FullOptions ρ) : Flag ρ → FullOptions ρ
  | .help => { options with help := true }
  | .csv => { options with csv := true }
  | .host text => { options with host := text }
  | .port number => { options with port := number }
  | .threads count => { options with threads := count }
  | .connections count => { options with connections := count }
  | .requests count => { options with requests := count }
  | .getRatio ratio => { options with getRatio := ratio }
  | .valueSize size => { options with valueSize := size }
  | .keySpace count => { options with keySpace := count }
  | .seed number => { options with seed := number }
  | .warmupRequests count => { options with warmupRequests := count }
  | .pipeline depth => { options with pipeline := depth }

/-- A numeral for a number of 64 bits. -/
def Word (text : Bytes) (n : ℕ) : Prop := Numeral text n ∧ n < 2 ^ 64

/-- The arguments that stand for a flag. -/
inductive Denotes (d : Doubles ρ) : List Bytes → Flag ρ → Prop where
  | help : Denotes d [literal "--help"] .help
  | csv : Denotes d [literal "--csv"] .csv
  | host (text : Bytes) : Denotes d [literal "--host", text] (.host text)
  | port {text : Bytes} {n : ℕ} (h : Numeral text n) (pos : n ≠ 0) (le : n ≤ 65535) :
    Denotes d [literal "--port", text] (.port (UInt16.ofNat n))
  | threads {text : Bytes} {n : ℕ} (h : Word text n) :
    Denotes d [literal "--threads", text] (.threads n)
  | connections {text : Bytes} {n : ℕ} (h : Word text n) :
    Denotes d [literal "--connections", text] (.connections n)
  | requests {text : Bytes} {n : ℕ} (h : Word text n) :
    Denotes d [literal "--requests", text] (.requests n)
  | getRatio {text : Bytes} {ratio : ρ} (h : d.read text = some (ratio, []))
    (finite : d.isFinite ratio = true) : Denotes d [literal "--get-ratio", text] (.getRatio ratio)
  | valueSize {text : Bytes} {n : ℕ} (h : Word text n) :
    Denotes d [literal "--value-size", text] (.valueSize n)
  | keySpace {text : Bytes} {n : ℕ} (h : Word text n) :
    Denotes d [literal "--key-space", text] (.keySpace n)
  | seed {text : Bytes} {n : ℕ} (h : Word text n) :
    Denotes d [literal "--seed", text] (.seed (UInt64.ofNat n))
  | warmupRequests {text : Bytes} {n : ℕ} (h : Word text n) :
    Denotes d [literal "--warmup-requests", text] (.warmupRequests n)
  | pipeline {text : Bytes} {n : ℕ} (h : Word text n) :
    Denotes d [literal "--pipeline", text] (.pipeline n)

end Flag

/-! ## The values

Numbers are numerals below `2 ^ 64`, as in the configuration of the server. A ratio is whatever the
library reads as a number, if it has read all of the text. -/

theorem parseUnsigned_ok_iff {value option : Bytes} {n : ℕ} :
    parseUnsigned value option = .ok n ↔ Flag.Word value n := by
  rw [Flag.Word, ← fromChars_ok_iff, parseUnsigned]
  cases fromChars value with
  | error e => simp
  | ok result =>
    obtain ⟨parsed, rest⟩ := result
    by_cases hrest : rest = [] <;> simp [hrest]

theorem parseSize_ok_iff {value option : Bytes} {n : ℕ} :
    parseSize value option = .ok n ↔ Flag.Word value n := by
  rw [parseSize, Except.bind_eq_ok_iff]
  constructor
  · rintro ⟨parsed, hparsed, hcheck⟩
    rw [checkedSize] at hcheck
    split_ifs at hcheck
    cases hcheck
    exact parseUnsigned_ok_iff.mp hparsed
  · intro h
    have hlt := h.2
    exact ⟨n, parseUnsigned_ok_iff.mpr h, if_neg (by omega)⟩

theorem parseSize_bind_ok {value option : Bytes} {set : ℕ → FullOptions ρ}
    {options : FullOptions ρ}
    (h : (parseSize value option >>= fun n ↦ .ok (set n)) = .ok options) :
    ∃ n, Flag.Word value n ∧ options = set n := by
  obtain ⟨n, hn, hset⟩ := Except.bind_eq_ok_iff.mp h
  cases hset
  exact ⟨n, parseSize_ok_iff.mp hn, rfl⟩

theorem parsePort_eq_ok_iff {value option : Bytes} {number : UInt16} :
    parsePort value option = .ok number
      ↔ ∃ n, Numeral value n ∧ n ≠ 0 ∧ n ≤ 65535 ∧ number = UInt16.ofNat n := by
  rw [parsePort, Except.bind_eq_ok_iff]
  constructor
  · rintro ⟨n, hn, hcheck⟩
    split_ifs at hcheck with hrange
    rw [not_or, Nat.not_lt] at hrange
    cases hcheck
    exact ⟨n, (parseUnsigned_ok_iff.mp hn).1, hrange.1, hrange.2, rfl⟩
  · rintro ⟨n, hn, hpos, hle, rfl⟩
    refine ⟨n, parseUnsigned_ok_iff.mpr ⟨hn, by omega⟩, if_neg ?_⟩
    exact not_or.mpr ⟨hpos, Nat.not_lt.mpr hle⟩

theorem parseRatio_ok_iff {value option : Bytes} {ratio : ρ} :
    parseRatio d value option = .ok ratio
      ↔ d.read value = some (ratio, []) ∧ d.isFinite ratio = true := by
  rw [parseRatio]
  cases hread : d.read value with
  | none => simp
  | some result =>
    obtain ⟨parsed, rest⟩ := result
    dsimp only
    split_ifs with hcheck
    · refine ⟨by rintro ⟨⟩, ?_⟩
      rintro ⟨heq, hfinite⟩
      cases heq
      simp [hfinite] at hcheck
    · rw [not_or, not_not, Bool.not_eq_false] at hcheck
      obtain ⟨rfl, hfinite⟩ := hcheck
      constructor
      · intro h
        cases h
        exact ⟨rfl, hfinite⟩
      · rintro ⟨heq, -⟩
        cases heq
        rfl

/-! ## The loop

The loop sets each option as it comes, and a flag that comes again sets it again. So the options are
the defaults with the flags applied in their order. -/

/-- The branches of the source, one after the other. -/
private theorem exists_flag_of_setValue {argument value : Bytes} {options options' : FullOptions ρ}
    (h : setValue d argument value options = .ok options') :
    ∃ flag, Flag.Denotes d [argument, value] flag ∧ options' = flag.apply options := by
  rw [setValue, ite_eq_iff] at h
  rcases h with ⟨rfl, h⟩ | ⟨-, h⟩
  · cases h
    exact ⟨_, .host value, rfl⟩
  rw [ite_eq_iff] at h
  rcases h with ⟨rfl, h⟩ | ⟨-, h⟩
  · obtain ⟨number, hnumber, hset⟩ := Except.bind_eq_ok_iff.mp h
    obtain ⟨n, hn, hpos, hle, rfl⟩ := parsePort_eq_ok_iff.mp hnumber
    cases hset
    exact ⟨_, .port hn hpos hle, rfl⟩
  rw [ite_eq_iff] at h
  rcases h with ⟨rfl, h⟩ | ⟨-, h⟩
  · obtain ⟨n, hn, rfl⟩ := parseSize_bind_ok h
    exact ⟨_, .threads hn, rfl⟩
  rw [ite_eq_iff] at h
  rcases h with ⟨rfl, h⟩ | ⟨-, h⟩
  · obtain ⟨n, hn, rfl⟩ := parseSize_bind_ok h
    exact ⟨_, .connections hn, rfl⟩
  rw [ite_eq_iff] at h
  rcases h with ⟨rfl, h⟩ | ⟨-, h⟩
  · obtain ⟨n, hn, rfl⟩ := parseSize_bind_ok h
    exact ⟨_, .requests hn, rfl⟩
  rw [ite_eq_iff] at h
  rcases h with ⟨rfl, h⟩ | ⟨-, h⟩
  · obtain ⟨ratio, hratio, hset⟩ := Except.bind_eq_ok_iff.mp h
    obtain ⟨hread, hfinite⟩ := parseRatio_ok_iff.mp hratio
    cases hset
    exact ⟨_, .getRatio hread hfinite, rfl⟩
  rw [ite_eq_iff] at h
  rcases h with ⟨rfl, h⟩ | ⟨-, h⟩
  · obtain ⟨n, hn, rfl⟩ := parseSize_bind_ok h
    exact ⟨_, .valueSize hn, rfl⟩
  rw [ite_eq_iff] at h
  rcases h with ⟨rfl, h⟩ | ⟨-, h⟩
  · obtain ⟨n, hn, rfl⟩ := parseSize_bind_ok h
    exact ⟨_, .keySpace hn, rfl⟩
  rw [ite_eq_iff] at h
  rcases h with ⟨rfl, h⟩ | ⟨-, h⟩
  · obtain ⟨n, hn, hset⟩ := Except.bind_eq_ok_iff.mp h
    cases hset
    exact ⟨_, .seed (parseUnsigned_ok_iff.mp hn), rfl⟩
  rw [ite_eq_iff] at h
  rcases h with ⟨rfl, h⟩ | ⟨-, h⟩
  · obtain ⟨n, hn, rfl⟩ := parseSize_bind_ok h
    exact ⟨_, .warmupRequests hn, rfl⟩
  rw [ite_eq_iff] at h
  rcases h with ⟨rfl, h⟩ | ⟨-, h⟩
  · obtain ⟨n, hn, rfl⟩ := parseSize_bind_ok h
    exact ⟨_, .pipeline hn, rfl⟩
  cases h

private theorem setValue_of_denotes {argument value : Bytes} {options : FullOptions ρ}
    {flag : Flag ρ} (hdenotes : Flag.Denotes d [argument, value] flag) :
    setValue d argument value options = .ok (flag.apply options) := by
  cases hdenotes with
  | host => simp +decide only [setValue, if_true]; rfl
  | port hn hpos hle =>
    simp +decide only [setValue, if_true, if_false,
      parsePort_eq_ok_iff.mpr ⟨_, hn, hpos, hle, rfl⟩]
    rfl
  | getRatio hread hfinite =>
    simp +decide only [setValue, if_true, if_false, parseRatio_ok_iff.mpr ⟨hread, hfinite⟩]
    rfl
  | seed hn =>
    simp +decide only [setValue, if_true, if_false, parseUnsigned_ok_iff.mpr hn]
    rfl
  | threads hn | connections hn | requests hn | valueSize hn | keySpace hn | warmupRequests hn
  | pipeline hn =>
    simp +decide only [setValue, if_true, if_false, parseSize_ok_iff.mpr hn]
    rfl

/-- A word and its value are accepted if they stand for a flag. -/
theorem setValue_ok_iff {argument value : Bytes} {options options' : FullOptions ρ} :
    setValue d argument value options = .ok options'
      ↔ ∃ flag, Flag.Denotes d [argument, value] flag ∧ options' = flag.apply options := by
  constructor
  · exact exists_flag_of_setValue
  · rintro ⟨flag, hdenotes, rfl⟩
    exact setValue_of_denotes hdenotes

/-- The arguments stand for some flags, one after the other. -/
def Reads (d : Doubles ρ) (arguments : List Bytes) (flags : List (Flag ρ)) : Prop :=
  ∃ words, List.Forall₂ (Flag.Denotes d) words flags ∧ arguments = words.flatten

private theorem reads_nil : Reads d [] [] := ⟨[], .nil, rfl⟩

theorem Reads.cons {word arguments : List Bytes} {flag : Flag ρ} {flags : List (Flag ρ)}
    (hdenotes : Flag.Denotes d word flag) (h : Reads d arguments flags) :
    Reads d (word ++ arguments) (flag :: flags) := by
  obtain ⟨words, hwords, rfl⟩ := h
  exact ⟨word :: words, .cons hdenotes hwords, List.flatten_cons.symm⟩

private theorem Reads.of_cons {arguments : List Bytes} {flag : Flag ρ} {flags : List (Flag ρ)}
    (h : Reads d arguments (flag :: flags)) :
    ∃ word rest, arguments = word ++ rest ∧ Flag.Denotes d word flag ∧ Reads d rest flags := by
  obtain ⟨words, hwords, rfl⟩ := h
  cases hwords with
  | cons hdenotes hrest => exact ⟨_, _, List.flatten_cons, hdenotes, _, hrest, rfl⟩

private theorem parseLoop_help (arguments : List Bytes) (options : FullOptions ρ) :
    parseLoop d (literal "--help" :: arguments) options
      = parseLoop d arguments { options with help := true } := by
  rw [parseLoop.eq_def]
  exact if_pos rfl

private theorem parseLoop_csv (arguments : List Bytes) (options : FullOptions ρ) :
    parseLoop d (literal "--csv" :: arguments) options
      = parseLoop d arguments { options with csv := true } := by
  rw [parseLoop.eq_def]
  exact (if_neg (by decide)).trans (if_pos rfl)

private theorem parseLoop_valued {argument : Bytes} (hvalued : argument ∈ valued) (value : Bytes)
    (arguments : List Bytes) (options : FullOptions ρ) :
    parseLoop d (argument :: value :: arguments) options
      = setValue d argument value options >>= parseLoop d arguments := by
  have hne : ∀ argument ∈ valued, argument ≠ literal "--help" ∧ argument ≠ literal "--csv" := by
    decide
  obtain ⟨hhelp, hcsv⟩ := hne argument hvalued
  rw [parseLoop, if_neg hhelp, if_neg hcsv, if_pos hvalued]

private theorem parseLoop_append {word : List Bytes} {flag : Flag ρ} (h : Flag.Denotes d word flag)
    (arguments : List Bytes) (options : FullOptions ρ) :
    parseLoop d (word ++ arguments) options = parseLoop d arguments (flag.apply options) := by
  have hvalue : ∀ argument value, word = [argument, value] → argument ∈ valued →
      parseLoop d (word ++ arguments) options = parseLoop d arguments (flag.apply options) := by
    rintro argument value rfl hvalued
    show parseLoop d (argument :: value :: arguments) options = _
    rw [parseLoop_valued hvalued, setValue_ok_iff.mpr ⟨flag, h, rfl⟩, Except.ok_bind_eq]
  cases h with
  | help => exact parseLoop_help arguments options
  | csv => exact parseLoop_csv arguments options
  | host | port | threads | connections | requests | getRatio | valueSize | keySpace | seed
  | warmupRequests | pipeline => exact hvalue _ _ rfl (by decide)

theorem parseLoop_ok_iff {arguments : List Bytes} {options options' : FullOptions ρ} :
    parseLoop d arguments options = .ok options'
      ↔ ∃ flags, Reads d arguments flags ∧ options' = flags.foldl Flag.apply options := by
  constructor
  · intro h
    induction arguments, options using parseLoop.induct with
    | case1 options =>
      cases h
      exact ⟨[], reads_nil, rfl⟩
    | case2 options arguments ih =>
      rw [parseLoop_help] at h
      obtain ⟨flags, hreads, rfl⟩ := ih h
      exact ⟨.help :: flags, hreads.cons .help, rfl⟩
    | case3 options arguments hhelp ih =>
      rw [parseLoop_csv] at h
      obtain ⟨flags, hreads, rfl⟩ := ih h
      exact ⟨.csv :: flags, hreads.cons .csv, rfl⟩
    | case4 options argument hhelp hcsv hvalued =>
      -- the value is missing
      rw [parseLoop, if_neg hhelp, if_neg hcsv, if_pos hvalued] at h
      cases h
    | case5 options argument hhelp hcsv hvalued value arguments ih =>
      rw [parseLoop_valued hvalued] at h
      obtain ⟨options₁, hset, hrest⟩ := Except.bind_eq_ok_iff.mp h
      obtain ⟨flag, hdenotes, rfl⟩ := setValue_ok_iff.mp hset
      obtain ⟨flags, hreads, rfl⟩ := ih _ hrest
      exact ⟨flag :: flags, hreads.cons hdenotes, rfl⟩
    | case6 options argument arguments hhelp hcsv hvalued =>
      -- no option has this name
      rw [parseLoop.eq_def] at h
      dsimp only at h
      rw [if_neg hhelp, if_neg hcsv, if_neg hvalued] at h
      cases h
  · rintro ⟨flags, hreads, rfl⟩
    induction flags generalizing arguments options with
    | nil =>
      obtain ⟨words, hwords, rfl⟩ := hreads
      cases hwords
      rfl
    | cons flag flags ih =>
      obtain ⟨word, rest, rfl, hdenotes, hrest⟩ := hreads.of_cons
      rw [parseLoop_append hdenotes]
      exact ih hrest

/-- **What `parse_options` accepts.** The arguments stand for flags, which override the defaults in
their order, and the options are valid unless help is asked for. -/
theorem parseOptions_ok_iff {arguments : List Bytes} {options : FullOptions ρ} :
    parseOptions d arguments = .ok options
      ↔ ∃ flags, Reads d arguments flags ∧ options = flags.foldl Flag.apply (.default d)
        ∧ (options.help = false → options.Valid d) := by
  rw [parseOptions, Except.bind_eq_ok_iff]
  constructor
  · rintro ⟨options₁, hloop, hcheck⟩
    obtain ⟨flags, hreads, rfl⟩ := parseLoop_ok_iff.mp hloop
    split_ifs at hcheck with hhelp
    · cases hcheck
      exact ⟨flags, hreads, rfl, fun h ↦ absurd hhelp (by rw [h]; decide)⟩
    · obtain ⟨_, hvalidate, hok⟩ := Except.bind_eq_ok_iff.mp hcheck
      cases hok
      exact ⟨flags, hreads, rfl, fun _ ↦ validateOptions_ok_iff.mp hvalidate⟩
  · rintro ⟨flags, hreads, rfl, hvalid⟩
    refine ⟨_, parseLoop_ok_iff.mpr ⟨flags, hreads, rfl⟩, ?_⟩
    split_ifs with hhelp
    · rfl
    · rw [validateOptions_ok_iff.mpr (hvalid (Bool.eq_false_iff.mpr hhelp)), Except.ok_bind_eq]

/-! ## The process

The status is zero, one after an exception, or two if measured requests have failed. It is zero in
two ways: after the help, and after a report of no failures. -/

private theorem Reads.isFinite_getRatio {arguments : List Bytes} {flags : List (Flag ρ)}
    {options : FullOptions ρ} (h : Reads d arguments flags)
    (hfinite : d.isFinite options.getRatio = true) :
    d.isFinite (flags.foldl Flag.apply options).getRatio = true := by
  induction flags generalizing arguments options with
  | nil => exact hfinite
  | cons flag flags ih =>
    obtain ⟨word, rest, -, hdenotes, hrest⟩ := h.of_cons
    refine ih hrest ?_
    cases hdenotes with
    | getRatio hread hratio => exact hratio
    | help | csv | host | port | threads | connections | requests | valueSize | keySpace | seed
    | warmupRequests | pipeline => exact hfinite

/-- A benchmark that was measured has completed everything if the measured requests have
succeeded. -/
private theorem completed_measured_iff {options : FullOptions ρ} (hspace : options.keySpace ≠ 0)
    {done : List Execution} {x : Execution}
    (hdone : Completed options (options.keySpace + options.warmupRequests) done)
    (hplan : Planned options.keySpace (1 + (options.keySpace + options.warmupRequests))
      options.requests x.plan) (hcounted : x.Counted) :
    Completed options (options.keySpace + options.warmupRequests + options.requests) (done ++ [x])
      ↔ x.statistics.failed = 0 := by
  constructor
  · intro h
    exact h.succeeded x (List.mem_append_right _ (List.mem_singleton_self x))
  · intro hsucceeded
    refine hdone.snoc hplan hcounted hsucceeded ?_
    rintro rfl
    have hlength := congrArg List.length hdone.ids
    rw [length_idsFrom] at hlength
    exact absurd hlength (by simp only [List.flatMap_nil, List.map_nil, List.length_nil]; omega)

private theorem Completed.requireSuccess_ne_error {options : FullOptions ρ} {count : ℕ}
    {done : List Execution} (h : Completed options count done) {x : Execution} (hx : x ∈ done)
    {phase : String} {what : Bytes} : requireSuccess x phase ≠ .error what := by
  rw [requireSuccess_ok_iff.mpr (h.succeeded x hx)]
  rintro ⟨⟩

/-- **The status of the process is zero exactly if help was asked for or every request has
succeeded**, those of the first two plans included. -/
theorem main_status_zero_iff (arguments : List Bytes)
    (answers : (options : Options) → PhaseAnswers options)
    (hfits : ∀ options, parseOptions d arguments = .ok options → options.help = false →
      options.Fits) :
    (main d r arguments answers).Ensures
      (fun out ↦ out.1.status = 0 ↔ ∃ options, parseOptions d arguments = .ok options
        ∧ (options.help = true
          ∨ Completed options (options.keySpace + options.warmupRequests + options.requests) out.2))
      fun fault ↦ ∃ options, parseOptions d arguments = .ok options
        ∧ Outgrown options.longestPlan fault := by
  rw [main]
  cases hparse : parseOptions d arguments with
  | error what =>
    refine ⟨by rintro ⟨⟩, ?_⟩
    rintro ⟨options, ⟨⟩, -⟩
  | ok options =>
    dsimp only
    have hiff : ∀ p : FullOptions ρ → Prop,
        (∃ options', (Except.ok options : Except Bytes (FullOptions ρ)) = .ok options'
          ∧ p options') ↔ p options := by
      intro p
      refine ⟨?_, fun h ↦ ⟨options, rfl, h⟩⟩
      rintro ⟨options', ⟨⟩, h⟩
      exact h
    simp only [hiff]
    obtain ⟨flags, hreads, hoptions, hvalid⟩ := parseOptions_ok_iff.mp hparse
    have hfinite : d.isFinite options.getRatio = true := by
      rw [hoptions]
      exact hreads.isFinite_getRatio d.fourFifths_finite
    split_ifs with hhelp
    · exact ⟨fun _ ↦ .inl hhelp, fun _ ↦ rfl⟩
    · rw [Bool.not_eq_true] at hhelp
      have hvalid := hvalid hhelp
      refine (runBenchmark_ends (answers options.toOptions) (hfits options hparse hhelp)
        hfinite).bind ?_
      intro report hends
      simp only [hhelp, Bool.false_eq_true, false_or]
      cases hends with
      | refused hrefused =>
        rw [validateOptions_ok_iff.mpr hvalid] at hrefused
        cases hrefused
      | @preloadFailed x what hplan hcounted hfailed =>
        exact ⟨by rintro ⟨⟩, fun hcompleted ↦
          (hcompleted.requireSuccess_ne_error (List.mem_singleton_self x) hfailed).elim⟩
      | @warmupFailed preload x what hdone hwarmup hplan hmixed hcounted hfailed =>
        exact ⟨by rintro ⟨⟩, fun hcompleted ↦ (hcompleted.requireSuccess_ne_error
          (List.mem_cons_of_mem _ (List.mem_singleton_self x)) hfailed).elim⟩
      | @measured done x hready hplan hmixed hcounted =>
        -- the plans before the measured one have succeeded, or it would not have been executed
        show (if x.statistics.failed = 0 then 0 else 2) = 0 ↔ _
        rw [completed_measured_iff hvalid.keySpace hready.completed hplan hcounted]
        split_ifs with hzero
        · exact ⟨fun _ ↦ hzero, fun _ ↦ rfl⟩
        · exact ⟨by rintro ⟨⟩, fun h ↦ absurd h hzero⟩

/-- One GET of one key. -/
private def oneGetArguments : List Bytes :=
  ["--threads", "1", "--connections", "1", "--requests", "1", "--get-ratio", "1", "--value-size",
    "0", "--key-space", "1", "--warmup-requests", "0"].map literal

/-- The first request of the first plan and that of the last plan are answered. -/
private def oneGetIds : Phase → List UInt8
  | .preload => [1]
  | .warmup => []
  | .measured => [2]

/-- It succeeds. -/
theorem main_status_zero_iff_one_get :
    ∃ out, main rationals forced oneGetArguments (allAnswered oneGetIds) = .ok out ∧ out.1 = ⟨0, []⟩
      ∧ (out.1.status = 0 ↔ ∃ options, parseOptions rationals oneGetArguments = .ok options
        ∧ (options.help = true
          ∨ Completed options (options.keySpace + options.warmupRequests + options.requests)
            out.2)) := by
  have hsizes : (parseOptions rationals oneGetArguments).toOption.map (fun options ↦
      (options.keySpace, options.warmupRequests, options.requests, options.threads))
      = some (1, 0, 1, 1) := by decide +kernel
  have hexit : (main rationals forced oneGetArguments (allAnswered oneGetIds)).toOption.map Prod.fst
      = some ⟨0, []⟩ := by decide +kernel
  -- the elaborator would run the program to see that the theorem below takes no more arguments
  generalize oneGetArguments = arguments at hsizes hexit ⊢
  have hfits : ∀ options, parseOptions rationals arguments = .ok options →
      options.help = false → options.Fits := by
    intro options hparse _
    rw [hparse] at hsizes
    have heq : (options.keySpace, options.warmupRequests, options.requests, options.threads)
        = (1, 0, 1, 1) := Option.some.inj hsizes
    rw [Prod.mk.injEq, Prod.mk.injEq, Prod.mk.injEq] at heq
    obtain ⟨hspace, hwarmup, hrequests, hthreads⟩ := heq
    exact {
      warmup_le := by rw [hwarmup]; decide
      requests_le := by rw [hrequests]; decide
      preload_lt := by rw [hspace, hthreads]; decide
      warmup_lt := by rw [hwarmup, hthreads]; decide
      requests_lt := by rw [hrequests, hthreads]; decide }
  have hiff := main_status_zero_iff (r := forced) arguments (allAnswered oneGetIds) hfits
  cases hrun : main rationals forced arguments (allAnswered oneGetIds) with
  | error fault =>
    rw [hrun] at hexit
    cases hexit
  | ok out =>
    rw [hrun] at hexit hiff
    exact ⟨out, rfl, Option.some.inj hexit, hiff⟩

end Benchmark

end HighCache
