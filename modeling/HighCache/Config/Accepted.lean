import HighCache.Config.Config
import Mathlib.Data.List.Perm.Basic
import Mathlib.Data.List.ReduceOption
import Mathlib.Data.List.TakeWhile

/-!
# The texts that are a configuration

What `Config::from_stream` accepts, said without the parser. A line is skipped or it is an
assignment (`Reads`), and a text is accepted if each line is one of the two and no key is assigned
twice (`Accepts`). The configuration is then the defaults, overridden by the assignments
(`Overrides`), in which the order of the lines plays no part.

The parser goes through the lines with a configuration that is written in place and a flag for each
key. The invariant is that it holds exactly the assignments read so far (`Reading.Holds`).

## What acceptance says

The set of accepted texts is described by what their lines say, so that one can tell without running
the parser whether a file is a configuration and which one. Comments and empty lines say nothing;
the order of the others does not matter, because no key comes twice.
-/

namespace HighCache

open Scan

/-! ## What a line says

A setting is a key with a value of its type, already parsed. What a text denotes is a relation, one
clause for each key. -/

/-- The seven keys. -/
inductive Key where
  | logLevel
  | host
  | port
  | workerThreads
  | cacheCapacityBytes
  | shardCount
  | allocator
  deriving DecidableEq, Repr

/-- The name of a key in the file. -/
def Key.name : Key → Bytes
  | .logLevel => literal "log_level"
  | .host => literal "host"
  | .port => literal "port"
  | .workerThreads => literal "worker_threads"
  | .cacheCapacityBytes => literal "cache_capacity_bytes"
  | .shardCount => literal "shard_count"
  | .allocator => literal "allocator"

private theorem Key.name_injective : Function.Injective Key.name := by
  intro a b h
  cases a <;> cases b <;> first | rfl | exact absurd h (by decide)

/-- A key with a value of its kind. -/
inductive Setting where
  | logLevel (level : LogLevel)
  | host (text : Bytes)
  | port (number : UInt16)
  | workerThreads (count : ℕ)
  | cacheCapacityBytes (bytes : ℕ)
  | shardCount (count : ℕ)
  | allocator (backend : AllocatorBackend)
  deriving DecidableEq, Repr

namespace Setting

/-- The key of a setting. -/
def key : Setting → Key
  | .logLevel _ => .logLevel
  | .host _ => .host
  | .port _ => .port
  | .workerThreads _ => .workerThreads
  | .cacheCapacityBytes _ => .cacheCapacityBytes
  | .shardCount _ => .shardCount
  | .allocator _ => .allocator

/-- The names of the log levels. -/
def levelName : LogLevel → Bytes
  | .debug => literal "debug"
  | .info => literal "info"
  | .warning => literal "warning"
  | .error => literal "error"

/-- The names of the backends. -/
def backendName : AllocatorBackend → Bytes
  | .system => literal "system"
  | .slab => literal "slab"

/-- `value` is a valid value of the key of the setting, and stands for the setting's. -/
def Denotes (value : Bytes) : Setting → Prop
  | .logLevel level => value = levelName level
  | .host text => value = text
  | .port number => ∃ n, Numeral value n ∧ n ≤ 65535 ∧ number = UInt16.ofNat n
  | .workerThreads count => Numeral value count ∧ 1 ≤ count ∧ count ≤ 1024
  | .cacheCapacityBytes bytes => Numeral value bytes ∧ 1 ≤ bytes ∧ bytes ≤ 2 ^ 64 - 1
  | .shardCount count => Numeral value count ∧ 1 ≤ count ∧ count ≤ 1024
  | .allocator backend => value = backendName backend

end Setting

/-- Space, tab, carriage return and line feed. -/
def White (c : UInt8) : Prop := c ∈ [' '.toUInt8, '\t'.toUInt8, '\r'.toUInt8, '\n'.toUInt8]

/-- What a line says: nothing, or a setting. -/
inductive Reads (line : Bytes) : Option Setting → Prop
  /-- A line that is blank, or a comment. -/
  | skipped {content : Bytes} (hline : Strips White line content)
      (hskip : content = [] ∨ content.head? = some '#'.toUInt8) : Reads line none
  /-- A line that gives a value to a key. -/
  | assigned {content before after key value : Bytes} {s : Setting}
      (hline : Strips White line content) (hcontent : content ≠ [])
      (hcomment : content.head? ≠ some '#'.toUInt8)
      (hsplit : SplitsAt '='.toUInt8 content before after)
      (hbefore : Strips White before key) (hafter : Strips White after value)
      (hkey : key ≠ []) (hvalue : value ≠ []) (hname : key = s.key.name)
      (hdenotes : s.Denotes value) : Reads line (some s)

/-- The lines say `settings`, and no key is given twice. -/
def Accepts (lines : List Bytes) (settings : List Setting) : Prop :=
  ∃ said, List.Forall₂ Reads lines said ∧ settings = said.reduceOption
    ∧ (settings.map Setting.key).Nodup

/-- The lines are a configuration. -/
def Acceptable (lines : List Bytes) : Prop := ∃ settings, Accepts lines settings

/-- The setting of a configuration for a key. -/
def Config.setting (config : Config) : Key → Setting
  | .logLevel => .logLevel config.logLevel
  | .host => .host config.host
  | .port => .port config.port
  | .workerThreads => .workerThreads config.workerThreads
  | .cacheCapacityBytes => .cacheCapacityBytes config.cacheCapacityBytes
  | .shardCount => .shardCount config.shardCount
  | .allocator => .allocator config.allocatorBackend

/-- The configuration is made of the settings, and of the defaults for the keys that have none. -/
def Overrides (settings : List Setting) (config : Config) : Prop :=
  ∀ k, (∃ s ∈ settings, s.key = k ∧ config.setting k = s)
    ∨ (∀ s ∈ settings, s.key ≠ k) ∧ config.setting k = ({} : Config).setting k

/-! ## The parsers of text

Each parser against the relation it decides. The numbers go through `std::from_chars`, which stops
at the first character that is not a digit; that it has read everything is tested by its caller. -/

theorem white_iff {c : UInt8} : White c ↔ whitespace.contains c = true := by
  have hset : whitespace = [' '.toUInt8, '\t'.toUInt8, '\r'.toUInt8, '\n'.toUInt8] := by decide
  rw [White, hset, List.contains_iff_mem]

private theorem findFirstNotOf_spec {value : Bytes} {first : ℕ}
    (h : findFirstNotOf value whitespace = some first) :
    first < value.length ∧ (∀ c ∈ value.take first, White c) ∧ ∀ c ∈ value[first]?, ¬White c := by
  rw [findFirstNotOf, List.findIdx?_eq_some_iff_getElem] at h
  obtain ⟨hlt, hkeep, hskip⟩ := h
  refine ⟨hlt, fun c hc ↦ ?_, fun c hc ↦ ?_⟩
  · obtain ⟨j, hj, rfl⟩ := List.mem_take_iff_getElem.mp hc
    rw [white_iff]
    simpa using hskip j (by omega)
  · rw [List.getElem?_eq_getElem hlt, Option.mem_some_iff] at hc
    rw [white_iff, ← hc]
    simpa using hkeep

private theorem findLastNotOf_spec {value : Bytes} {last : ℕ}
    (h : findLastNotOf value whitespace = some last) :
    last < value.length ∧ (∀ c ∈ value.drop (last + 1), White c)
      ∧ ∀ c ∈ value[last]?, ¬White c := by
  rw [findLastNotOf, Option.map_eq_some_iff] at h
  obtain ⟨i, hi, rfl⟩ := h
  obtain ⟨hlt, hafter, hkeep⟩ := findFirstNotOf_spec hi
  rw [List.length_reverse] at hlt
  refine ⟨by omega, fun c hc ↦ hafter c ?_, ?_⟩
  · rw [List.take_reverse, List.mem_reverse]
    rwa [show value.length - 1 - i + 1 = value.length - i by omega] at hc
  · rwa [List.getElem?_reverse hlt] at hkeep

/-- **`trim` strips white space.** -/
theorem trim_strips (value : Bytes) : Strips White value (trim value) := by
  rw [trim]
  cases hfirst : findFirstNotOf value whitespace with
  | none =>
    refine ⟨value, [], by simp, fun c hc ↦ ?_, by simp, by simp, by simp⟩
    rw [findFirstNotOf, List.findIdx?_eq_none_iff] at hfirst
    rw [white_iff]
    simpa using hfirst c hc
  | some first =>
    obtain ⟨hlt, hbefore, hkeep⟩ := findFirstNotOf_spec hfirst
    have hmem : value[first] ∈ value := List.getElem_mem hlt
    have hnotWhite := hkeep value[first] (List.getElem?_eq_getElem hlt)
    cases hlast : findLastNotOf value whitespace with
    | none =>
      -- the character found from the left is found from the right as well
      rw [findLastNotOf, Option.map_eq_none_iff, List.findIdx?_eq_none_iff] at hlast
      refine absurd ?_ hnotWhite
      rw [white_iff]
      simpa using hlast value[first] (List.mem_reverse.mpr hmem)
    | some last =>
      obtain ⟨hlast, hafter, hend⟩ := findLastNotOf_spec hlast
      refine strips_of_bounds hlast ?_ hbefore hafter hkeep hend
      by_contra hlt'
      exact hnotWhite (hafter _ (List.mem_drop_iff_getElem.mpr
        ⟨first - (last + 1), by omega, by congr 1; omega⟩))

theorem strips_iff {value core : Bytes} : Strips White value core ↔ core = trim value :=
  ⟨fun h ↦ h.unique (trim_strips value), fun h ↦ h ▸ trim_strips value⟩

/-- `std::from_chars` reads all of a text if the text is a numeral below `2 ^ 64`. -/
theorem fromChars_ok_iff {text : Bytes} {n : ℕ} :
    fromChars text = .ok (n, []) ↔ Numeral text n ∧ n < 2 ^ 64 := by
  have hself : (text.takeWhile fun c ↦ decide (IsDigit c)) = text ↔ ∀ c ∈ text, IsDigit c := by
    rw [List.takeWhile_eq_self_iff]
    simp
  constructor
  · intro h
    simp only [fromChars] at h
    split_ifs at h with hnil hlarge
    rw [Except.ok.injEq, Prod.mk.injEq, List.drop_eq_nil_iff] at h
    obtain ⟨hvalue, hle⟩ := h
    have hall := (List.takeWhile_prefix _).eq_of_length_le hle
    rw [hall] at hvalue hnil hlarge
    exact ⟨⟨hnil, hself.mp hall, by rw [← foldl_digits, hvalue]⟩, by omega⟩
  · rintro ⟨⟨hnil, hdigits, rfl⟩, hlt⟩
    simp only [fromChars, hself.mpr hdigits, foldl_digits]
    rw [if_neg hnil, if_neg (by omega), List.drop_length]

/-- **`parse_unsigned` reads the numerals below `2 ^ 64`.** -/
theorem parseUnsigned_ok_iff {value : Bytes} {n : ℕ} :
    parseUnsigned value = .ok n ↔ Numeral value n ∧ n < 2 ^ 64 := by
  rw [← fromChars_ok_iff, parseUnsigned]
  cases fromChars value with
  | error e => simp
  | ok result =>
    obtain ⟨parsed, rest⟩ := result
    by_cases hrest : rest = [] <;> simp [hrest]

theorem parseUnsigned_bind_ok_iff {α : Type} {value : Bytes} {check : ℕ → Except HighCacheError α}
    {x : α} :
    (parseUnsigned value >>= check) = .ok x
      ↔ ∃ n, (Numeral value n ∧ n < 2 ^ 64) ∧ check n = .ok x := by
  simp only [← parseUnsigned_ok_iff]
  cases parseUnsigned value <;> simp [bind, Except.bind]

theorem parsePort_ok_iff {value : Bytes} {number : UInt16} :
    parsePort value = .ok number ↔ Setting.Denotes value (.port number) := by
  rw [parsePort, parseUnsigned_bind_ok_iff, Setting.Denotes]
  constructor
  · rintro ⟨n, ⟨hn, -⟩, h⟩
    split_ifs at h with hlarge
    exact ⟨n, hn, by omega, (Except.ok.inj h).symm⟩
  · rintro ⟨n, hn, hle, rfl⟩
    exact ⟨n, ⟨hn, by omega⟩, if_neg (by omega)⟩

theorem parsePositive_ok_iff {limit : ℕ} (hlimit : limit < 2 ^ 64) {problem : String}
    {value : Bytes} {n : ℕ} :
    parsePositive limit problem value = .ok n ↔ Numeral value n ∧ 1 ≤ n ∧ n ≤ limit := by
  rw [parsePositive, parseUnsigned_bind_ok_iff]
  constructor
  · rintro ⟨parsed, ⟨hn, -⟩, h⟩
    split_ifs at h with hrange
    cases h
    exact ⟨hn, by omega, by omega⟩
  · rintro ⟨hn, hpos, hle⟩
    exact ⟨n, ⟨hn, by omega⟩, if_neg (by omega)⟩

theorem parseLogLevel_ok_iff {value : Bytes} {level : LogLevel} :
    parseLogLevel value = .ok level ↔ Setting.Denotes value (.logLevel level) := by
  rw [parseLogLevel, Setting.Denotes]
  split_ifs with hdebug hinfo hwarning herror
  · subst hdebug
    cases level <;> decide
  · subst hinfo
    cases level <;> decide
  · subst hwarning
    cases level <;> decide
  · subst herror
    cases level <;> decide
  · cases level <;> simp_all [Setting.levelName]

theorem parseAllocatorBackend_ok_iff {value : Bytes} {backend : AllocatorBackend} :
    parseAllocatorBackend value = .ok backend ↔ Setting.Denotes value (.allocator backend) := by
  rw [parseAllocatorBackend, Setting.Denotes]
  split_ifs with hsystem hslab
  · subst hsystem
    cases backend <;> decide
  · subst hslab
    cases backend <;> decide
  · cases backend <;> simp_all [Setting.backendName]

/-! ## One line

A line changes one member and its flag. The lemma about a branch is stated once, with the key, the
parser and the setter as arguments, and each branch is an instance of it. -/

namespace Reading

/-- The flag of a key. -/
def has (r : Reading) : Key → Bool
  | .logLevel => r.hasLogLevel
  | .host => r.hasHost
  | .port => r.hasPort
  | .workerThreads => r.hasWorkerThreads
  | .cacheCapacityBytes => r.hasCacheCapacityBytes
  | .shardCount => r.hasShardCount
  | .allocator => r.hasAllocatorBackend

/-- A setting is written down, and its flag is raised. -/
def put (r : Reading) : Setting → Reading
  | .logLevel level =>
    { r with config := { r.config with logLevel := level }, hasLogLevel := true }
  | .host text => { r with config := { r.config with host := text }, hasHost := true }
  | .port number => { r with config := { r.config with port := number }, hasPort := true }
  | .workerThreads count =>
    { r with config := { r.config with workerThreads := count }, hasWorkerThreads := true }
  | .cacheCapacityBytes bytes =>
    { r with
      config := { r.config with cacheCapacityBytes := bytes }, hasCacheCapacityBytes := true }
  | .shardCount count =>
    { r with config := { r.config with shardCount := count }, hasShardCount := true }
  | .allocator backend =>
    { r with config := { r.config with allocatorBackend := backend }, hasAllocatorBackend := true }

private theorem has_put (r : Reading) (s : Setting) (k : Key) :
    (r.put s).has k = (decide (s.key = k) || r.has k) := by
  cases s <;> cases k <;> rfl

private theorem setting_put (r : Reading) (s : Setting) (k : Key) :
    (r.put s).config.setting k = if s.key = k then s else r.config.setting k := by
  cases s <;> cases k <;> rfl

variable {r r' : Reading} {value : Bytes}

/-- The setting that a key and a value give is written down, if the key is new. -/
def Gives (r : Reading) (key value : Bytes) (r' : Reading) : Prop :=
  ∃ s : Setting, key = s.key.name ∧ s.Denotes value ∧ r.has s.key = false ∧ r' = r.put s

private theorem gives_name_iff {k : Key} :
    r.Gives k.name value r'
      ↔ ∃ s : Setting, s.key = k ∧ s.Denotes value ∧ r.has k = false ∧ r' = r.put s := by
  constructor
  · rintro ⟨s, hname, hdenotes, hnew, hput⟩
    obtain rfl := Key.name_injective hname
    exact ⟨s, rfl, hdenotes, hnew, hput⟩
  · rintro ⟨s, rfl, hdenotes, hnew, hput⟩
    exact ⟨s, rfl, hdenotes, hnew, hput⟩

theorem assign_ok_iff {α : Type} (k : Key) (setting : α → Setting) {name : String}
    {parse : Bytes → Except HighCacheError α} {branch : Bytes → Except String Reading}
    (hbranch : branch = assign name (r.has k) parse fun x ↦ r.put (setting x))
    (hparse : ∀ x, parse value = .ok x ↔ (setting x).Denotes value)
    (hkey : ∀ s : Setting, s.key = k ↔ ∃ x, s = setting x) :
    branch value = .ok r' ↔ r.Gives k.name value r' := by
  rw [gives_name_iff, hbranch, assign]
  cases hhas : r.has k with
  | true => simp
  | false =>
    constructor
    · intro h
      cases hvalue : parse value with
      | error e =>
        rw [hvalue] at h
        cases h
      | ok x =>
        rw [hvalue] at h
        exact ⟨setting x, (hkey _).mpr ⟨x, rfl⟩, (hparse x).mp hvalue, rfl, (Except.ok.inj h).symm⟩
    · rintro ⟨s, hs, hdenotes, -, rfl⟩
      obtain ⟨x, rfl⟩ := (hkey s).mp hs
      rw [(hparse x).mpr hdenotes]
      rfl

theorem assignHost_ok_iff :
    r.assignHost value = .ok r' ↔ r.Gives Key.host.name value r' := by
  rw [gives_name_iff, assignHost]
  split_ifs with hhas
  · simp [has, hhas]
  · constructor
    · rintro ⟨⟩
      exact ⟨.host value, rfl, rfl, by simpa [has] using hhas, rfl⟩
    · rintro ⟨s, hkey, hdenotes, -, rfl⟩
      cases s <;> cases hkey
      cases hdenotes
      rfl

/-- **The chain of branches knows the seven keys, and each branch its own flag and values.** -/
theorem assignKey_ok_iff {key : Bytes} :
    r.assignKey key value = .ok r' ↔ r.Gives key value r' := by
  rw [assignKey]
  by_cases hlevel : key = literal "log_level"
  · rw [if_pos hlevel, hlevel]
    exact assign_ok_iff .logLevel .logLevel rfl (fun _ ↦ parseLogLevel_ok_iff) fun s ↦ by
      cases s <;> simp [Setting.key]
  rw [if_neg hlevel]
  by_cases hhost : key = literal "host"
  · rw [if_pos hhost, hhost]
    exact assignHost_ok_iff
  rw [if_neg hhost]
  by_cases hport : key = literal "port"
  · rw [if_pos hport, hport]
    exact assign_ok_iff .port .port rfl (fun _ ↦ parsePort_ok_iff) fun s ↦ by
      cases s <;> simp [Setting.key]
  rw [if_neg hport]
  by_cases hworkers : key = literal "worker_threads"
  · rw [if_pos hworkers, hworkers]
    exact assign_ok_iff .workerThreads .workerThreads rfl
      (fun _ ↦ parsePositive_ok_iff (by decide)) fun s ↦ by cases s <;> simp [Setting.key]
  rw [if_neg hworkers]
  by_cases hcapacity : key = literal "cache_capacity_bytes"
  · rw [if_pos hcapacity, hcapacity]
    exact assign_ok_iff .cacheCapacityBytes .cacheCapacityBytes rfl
      (fun _ ↦ parsePositive_ok_iff (by decide)) fun s ↦ by cases s <;> simp [Setting.key]
  rw [if_neg hcapacity]
  by_cases hshards : key = literal "shard_count"
  · rw [if_pos hshards, hshards]
    exact assign_ok_iff .shardCount .shardCount rfl
      (fun _ ↦ parsePositive_ok_iff (by decide)) fun s ↦ by cases s <;> simp [Setting.key]
  rw [if_neg hshards]
  by_cases hallocator : key = literal "allocator"
  · rw [if_pos hallocator, hallocator]
    exact assign_ok_iff .allocator .allocator rfl (fun _ ↦ parseAllocatorBackend_ok_iff) fun s ↦ by
      cases s <;> simp [Setting.key]
  rw [if_neg hallocator]
  refine ⟨by rintro ⟨⟩, fun ⟨s, hname, _⟩ ↦ ?_⟩
  cases s <;> contradiction

/-- What a line says is written down. -/
def puts (r : Reading) : Option Setting → Reading
  | none => r
  | some s => r.put s

/-- **A line is read if it says something, and the key is new if it is a setting.** -/
theorem readLine_ok_iff {line : Bytes} :
    r.readLine line = .ok r'
      ↔ ∃ said, Reads line said ∧ (∀ s ∈ said, r.has s.key = false) ∧ r' = r.puts said := by
  have hline := trim_strips line
  rw [readLine]
  constructor
  · intro h
    dsimp only at h
    split_ifs at h with hskip
    · cases h
      exact ⟨none, .skipped hline hskip, by simp, rfl⟩
    · rw [not_or] at hskip
      split at h
      · cases h
      · rename_i delimiter hfind
        split_ifs at h with hempty
        rw [not_or] at hempty
        obtain ⟨s, hname, hdenotes, hnew, hput⟩ := assignKey_ok_iff.mp h
        refine ⟨some s, ?_, by simpa using hnew, hput⟩
        exact .assigned hline hskip.1 hskip.2 (splitsAt_of_idxOf? hfind) (trim_strips _)
          (trim_strips _) hempty.1 hempty.2 hname hdenotes
  · rintro ⟨said, hreads, hnew, rfl⟩
    cases hreads with
    | skipped hcontent hskip =>
      obtain rfl := strips_iff.mp hcontent
      rw [if_pos hskip]
      rfl
    | @assigned content before after key value s hcontent hne hcomment hsplit hbefore hafter hkey
        hvalue hname hdenotes =>
      obtain rfl := strips_iff.mp hcontent
      have hfind := hsplit.idxOf?
      -- the first `=` is the only place where the line can be split
      obtain ⟨hb, ha⟩ := hsplit.unique (splitsAt_of_idxOf? hfind)
      rw [if_neg (not_or.mpr ⟨hne, hcomment⟩), hfind]
      dsimp only
      rw [← hb, ← ha, ← strips_iff.mp hbefore, ← strips_iff.mp hafter,
        if_neg (not_or.mpr ⟨hkey, hvalue⟩)]
      exact assignKey_ok_iff.mpr ⟨s, hname, hdenotes, hnew s rfl, rfl⟩

/-! ## Every text

The state of the parser is compared with the settings read so far, as a set: a flag is up if there
is a setting with its key, and each member has the value of its setting or the default. -/

/-- The parser has the settings `settings` so far. -/
structure Holds (settings : List Setting) (r : Reading) : Prop where
  has_iff : ∀ k, r.has k = true ↔ k ∈ settings.map Setting.key
  nodup : (settings.map Setting.key).Nodup
  overrides : Overrides settings r.config

private theorem holds_nil : Holds [] {} where
  has_iff k := by cases k <;> simp [has]
  nodup := .nil
  overrides _ := .inr ⟨by simp, rfl⟩

private theorem Holds.has_eq_false_iff {settings : List Setting} (h : Holds settings r) {k : Key} :
    r.has k = false ↔ k ∉ settings.map Setting.key := by
  rw [← h.has_iff, Bool.not_eq_true]

theorem Holds.put {settings : List Setting} (h : Holds settings r) {s : Setting}
    (hnew : s.key ∉ settings.map Setting.key) : Holds (settings ++ [s]) (r.put s) where
  has_iff k := by
    rw [has_put, Bool.or_eq_true, decide_eq_true_iff, h.has_iff, List.map_append, List.mem_append,
      List.map_singleton, List.mem_singleton, or_comm, eq_comm]
  nodup := by
    rw [List.map_append, List.map_singleton, List.nodup_append_comm, List.singleton_append,
      List.nodup_cons]
    exact ⟨hnew, h.nodup⟩
  overrides k := by
    rw [setting_put]
    by_cases hk : s.key = k
    · exact .inl ⟨s, by simp, hk, if_pos hk⟩
    · rw [if_neg hk]
      rcases h.overrides k with ⟨t, ht, htk, hset⟩ | ⟨hnone, hset⟩
      · exact .inl ⟨t, List.mem_append_left _ ht, htk, hset⟩
      · refine .inr ⟨fun t ht ↦ ?_, hset⟩
        rcases List.mem_append.mp ht with ht | ht
        · exact hnone t ht
        · exact List.mem_singleton.mp ht ▸ hk

theorem readNumberedLine_ok_iff (sourceName : String) (lineNumber : ℕ) (line : Bytes)
    (r r' : Reading) :
    readNumberedLine sourceName lineNumber line r = .ok r'
      ↔ ∃ said, Reads line said ∧ (∀ s ∈ said, r.has s.key = false) ∧ r' = r.puts said := by
  rw [← readLine_ok_iff, readNumberedLine]
  cases r.readLine line <;> simp [Except.mapError]

variable {sourceName : String} {n : ℕ} {lines : List Bytes} {settings : List Setting}

private theorem Holds.of_numbered (h : Holds settings r)
    (hread : numbered (readNumberedLine sourceName) n lines r = .ok r') :
    ∃ said, List.Forall₂ Reads lines said ∧ Holds (settings ++ said.reduceOption) r' := by
  induction lines generalizing n r settings with
  | nil =>
    cases hread
    exact ⟨[], .nil, by rwa [List.reduceOption_nil, List.append_nil]⟩
  | cons line lines ih =>
    obtain ⟨middle, ⟨said, hline, hnew, rfl⟩, hrest⟩ :=
      (numbered_ok_iff (readNumberedLine_ok_iff sourceName)).mp hread
    cases said with
    | none =>
      obtain ⟨others, hothers, hholds⟩ := ih h hrest
      exact ⟨none :: others, .cons hline hothers, hholds⟩
    | some s =>
      obtain ⟨others, hothers, hholds⟩ := ih (h.put (h.has_eq_false_iff.mp (hnew s rfl))) hrest
      refine ⟨some s :: others, .cons hline hothers, ?_⟩
      rwa [List.append_assoc] at hholds

theorem Holds.numbered (h : Holds settings r) {said : List (Option Setting)}
    (hsaid : List.Forall₂ Reads lines said)
    (hnodup : ((settings ++ said.reduceOption).map Setting.key).Nodup) :
    ∃ r', numbered (readNumberedLine sourceName) n lines r = .ok r'
      ∧ Holds (settings ++ said.reduceOption) r' := by
  induction hsaid generalizing n r settings with
  | nil => exact ⟨r, rfl, by rwa [List.reduceOption_nil, List.append_nil]⟩
  | @cons line word lines words hline hwords ih =>
    cases word with
    | none =>
      obtain ⟨r', hrest, hholds⟩ := ih h hnodup
      refine ⟨r', ?_, hholds⟩
      exact (numbered_ok_iff (readNumberedLine_ok_iff sourceName)).mpr
        ⟨r, ⟨none, hline, by simp, rfl⟩, hrest⟩
    | some s =>
      rw [List.reduceOption_cons_of_some, List.append_cons] at hnodup ⊢
      have hnew : s.key ∉ settings.map Setting.key := by
        rw [List.map_append, List.nodup_append, List.map_append, List.nodup_append] at hnodup
        exact fun hmem ↦ hnodup.1.2.2 _ hmem _ List.mem_cons_self rfl
      obtain ⟨r', hrest, hholds⟩ := ih (h.put hnew) hnodup
      refine ⟨r', ?_, hholds⟩
      exact (numbered_ok_iff (readNumberedLine_ok_iff sourceName)).mpr
        ⟨r.put s, ⟨some s, hline, by simpa using h.has_eq_false_iff.mpr hnew, rfl⟩, hrest⟩

end Reading

theorem Accepts.perm {lines lines' : List Bytes} {settings : List Setting}
    (h : Accepts lines settings) (hperm : lines'.Perm lines) :
    ∃ settings', Accepts lines' settings' ∧ settings'.Perm settings := by
  obtain ⟨said, hsaid, rfl, hnodup⟩ := h
  obtain ⟨said', hsaid', hperm'⟩ := List.perm_comp_forall₂ hperm hsaid
  have hsettings : said'.reduceOption.Perm said.reduceOption := hperm'.filterMap id
  exact ⟨said'.reduceOption, ⟨said', hsaid', rfl, (hsettings.map _).nodup_iff.mpr hnodup⟩,
    hsettings⟩

/-- The settings determine the configuration, whatever their order. -/
theorem Overrides.unique {settings settings' : List Setting} {config config' : Config}
    (h : Overrides settings config) (h' : Overrides settings' config')
    (hnodup : (settings.map Setting.key).Nodup) (hperm : settings'.Perm settings) :
    config = config' := by
  have hsetting : ∀ k, config.setting k = config'.setting k := by
    intro k
    rcases h k with ⟨s, hs, hkey, hset⟩ | ⟨hnone, hset⟩
    · rcases h' k with ⟨t, ht, htkey, htset⟩ | ⟨hnone, -⟩
      · rw [hset, htset]
        exact List.inj_on_of_nodup_map hnodup hs (hperm.subset ht) (hkey.trans htkey.symm)
      · exact absurd hkey (hnone s (hperm.symm.subset hs))
    · rcases h' k with ⟨t, ht, htkey, -⟩ | ⟨-, hset'⟩
      · exact absurd htkey (hnone t (hperm.subset ht))
      · rw [hset, hset']
  cases config
  cases config'
  have h₁ := hsetting .logLevel
  have h₂ := hsetting .host
  have h₃ := hsetting .port
  have h₄ := hsetting .workerThreads
  have h₅ := hsetting .cacheCapacityBytes
  have h₆ := hsetting .shardCount
  have h₇ := hsetting .allocator
  simp_all [Config.setting]

namespace Config

variable {sourceName : String} {lines : List Bytes}

theorem fromStream_ok_iff {config : Config} :
    fromStream sourceName lines false = .ok config
      ↔ ∃ r : Reading, numbered (Reading.readNumberedLine sourceName) 0 lines {} = .ok r
        ∧ r.config = config := by
  rw [fromStream]
  cases numbered (Reading.readNumberedLine sourceName) 0 lines {} <;> simp [bind, Except.bind]

private theorem fromStream_error_iff {e : HighCacheError} :
    fromStream sourceName lines false = .error e
      ↔ numbered (Reading.readNumberedLine sourceName) 0 lines {} = .error e := by
  rw [fromStream]
  cases numbered (Reading.readNumberedLine sourceName) 0 lines {} <;> simp [bind, Except.bind]

theorem acceptable_of_ok {config : Config} (h : fromStream sourceName lines false = .ok config) :
    Acceptable lines := by
  obtain ⟨r, hread, -⟩ := fromStream_ok_iff.mp h
  obtain ⟨said, hsaid, hholds⟩ := Reading.holds_nil.of_numbered hread
  exact ⟨said.reduceOption, said, hsaid, rfl, hholds.nodup⟩

theorem ok_of_accepts (sourceName : String) {settings : List Setting}
    (h : Accepts lines settings) :
    ∃ config, fromStream sourceName lines false = .ok config ∧ Overrides settings config := by
  obtain ⟨said, hsaid, rfl, hnodup⟩ := h
  obtain ⟨r, hread, hholds⟩ := Reading.holds_nil.numbered hsaid hnodup
  exact ⟨r.config, fromStream_ok_iff.mpr ⟨r, hread, rfl⟩, hholds.overrides⟩

theorem not_acceptable_iff :
    ¬Acceptable lines
      ↔ ∃ e, numbered (Reading.readNumberedLine sourceName) 0 lines {} = .error e := by
  constructor
  · intro h
    cases hread : numbered (Reading.readNumberedLine sourceName) 0 lines {} with
    | error e => exact ⟨e, rfl⟩
    | ok r => exact absurd (acceptable_of_ok (fromStream_ok_iff.mpr ⟨r, hread, rfl⟩)) h
  · rintro ⟨e, he⟩ ⟨settings, haccepts⟩
    obtain ⟨config, hok, -⟩ := ok_of_accepts sourceName haccepts
    rw [fromStream_error_iff.mpr he] at hok
    cases hok

/-- **`Config::from_stream` accepts exactly the texts that are a configuration.** It returns the
defaults overridden by what the lines say, which does not depend on their order. Any other text
is refused with the number of the line that ends the shortest beginning which is not one. -/
theorem fromStream_exact (sourceName : String) (lines : List Bytes) :
    ((∃ config, fromStream sourceName lines false = .ok config) ↔ Acceptable lines)
      ∧ (∀ settings, Accepts lines settings → ∃ config,
          Overrides settings config
            ∧ ∀ lines', lines'.Perm lines → fromStream sourceName lines' false = .ok config)
      ∧ (¬Acceptable lines → ∃ i detail, IsLeast {i | ¬Acceptable (lines.take i)} i
          ∧ fromStream sourceName lines false
            = .error (throwParseError sourceName i detail)) := by
  refine ⟨⟨fun ⟨config, h⟩ ↦ acceptable_of_ok h, fun ⟨settings, h⟩ ↦ ?_⟩, ?_, ?_⟩
  · obtain ⟨config, hok, -⟩ := ok_of_accepts sourceName h
    exact ⟨config, hok⟩
  · intro settings haccepts
    obtain ⟨config, -, hoverrides⟩ := ok_of_accepts sourceName haccepts
    refine ⟨config, hoverrides, fun lines' hperm ↦ ?_⟩
    obtain ⟨settings', haccepts', hsettings⟩ := haccepts.perm hperm
    obtain ⟨config', hok', hoverrides'⟩ := ok_of_accepts sourceName haccepts'
    obtain ⟨-, -, -, hnodup⟩ := haccepts
    rw [hok', hoverrides.unique hoverrides' hnodup hsettings]
  · intro hnot
    obtain ⟨e, he⟩ := not_acceptable_iff.mp hnot
    obtain ⟨i, line, r, hleast, hfail⟩ := numbered_error he
    have hset : {i | ¬Acceptable (lines.take i)}
        = {i | ∃ e,
          numbered (Reading.readNumberedLine sourceName) 0 (lines.take i) {} = .error e} :=
      Set.ext fun i ↦ not_acceptable_iff
    rw [Nat.zero_add, Reading.readNumberedLine] at hfail
    cases hread : r.readLine line with
    | ok r' =>
      rw [hread] at hfail
      cases hfail
    | error detail =>
      rw [hread] at hfail
      cases hfail
      exact ⟨i, detail, hset ▸ hleast, fromStream_error_iff.mpr he⟩

-- only the first `=` of a line counts
example :
    fromStream "test.conf" [literal " port = 080", literal "# HighCache", literal "host=a=b"] false
      = .ok { port := 80, host := literal "a=b" } := by
  decide

-- the value of the second `port` is never looked at
example :
    fromStream "test.conf" [literal "port=80", literal "\t\r", literal "port=text"] false
      = .error ⟨.configParse, "test.conf:3: duplicate configuration key: port"⟩ := by
  decide

end Config

end HighCache
