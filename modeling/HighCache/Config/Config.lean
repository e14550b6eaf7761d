import HighCache.Cache.CacheEngine
import HighCache.Lib.Scan
import HighCache.Memory.ValueAllocator

/-!
# The configuration file

`config.cpp`, with the parsers it uses of `logger.cpp` and `value_allocator.cpp`: a file of lines
`key=value`, read line by line. Each of the seven keys may be given once, in any order; what is not
given keeps its default.

A line is a string of bytes. Where the bytes of a line are put into a message, each stands as the
character of its code. The number of a line is a natural number.
-/

namespace HighCache

open Scan

/-- The bytes of a line in a message. -/
def display (bytes : Bytes) : String := String.ofList (bytes.map fun c ↦ Char.ofNat c.toNat)

/-! ## Text

The functions on strings, by positions as in the source. A position that is not found is `none`,
where the source has `npos`. -/

/-- `whitespace` of `trim`: space, tab, carriage return and line feed. -/
def whitespace : Bytes := literal " \t\r\n"

/-- `std::string_view::find_first_not_of`. -/
def findFirstNotOf (value set : Bytes) : Option ℕ := value.findIdx? fun c ↦ !set.contains c

/-- `std::string_view::find_last_not_of`. -/
def findLastNotOf (value set : Bytes) : Option ℕ :=
  (value.reverse.findIdx? fun c ↦ !set.contains c).map fun i ↦ value.length - 1 - i

/-- `std::string_view::substr`. -/
def substr (value : Bytes) (position count : ℕ) : Bytes := (value.drop position).take count

/-- `trim`. -/
def trim (value : Bytes) : Bytes :=
  match findFirstNotOf value whitespace with
  | none => []
  | some first =>
    match findLastNotOf value whitespace with
    | none => substr value first (2 ^ 64 - first)
    | some last => substr value first (last - first + 1)

/-- What `std::from_chars` reports instead of a value. -/
inductive Errc where
  | invalidArgument
  | resultOutOfRange
  deriving DecidableEq, Repr

/-- `std::from_chars` for a `std::uint64_t` in base ten: the value of the longest beginning that
consists of digits, and what comes after it. -/
def fromChars (text : Bytes) : Except Errc (ℕ × Bytes) :=
  let digits := text.takeWhile fun c ↦ decide (IsDigit c)
  let value := digits.foldl (fun value c ↦ 10 * value + digit c) 0
  if digits = [] then .error .invalidArgument
  else if 2 ^ 64 ≤ value then .error .resultOutOfRange
  else .ok (value, text.drop digits.length)

/-- `parse_unsigned`. -/
def parseUnsigned (value : Bytes) : Except HighCacheError ℕ :=
  match fromChars value with
  | .error _ => .error ⟨.invalidArgument, "expected an unsigned decimal integer"⟩
  | .ok (parsed, rest) =>
    if rest ≠ [] then .error ⟨.invalidArgument, "expected an unsigned decimal integer"⟩
    else .ok parsed

/-! ## The values

Each value has a parser, which throws with a message of its own. Three of the numbers must be
positive and within a limit; they are one parser with the limit and the message as arguments. -/

/-- `LogLevel`. -/
inductive LogLevel where
  | debug
  | info
  | warning
  | error
  deriving DecidableEq, Repr

/-- `parse_log_level`. -/
def parseLogLevel (value : Bytes) : Except HighCacheError LogLevel :=
  if value = literal "debug" then .ok .debug
  else if value = literal "info" then .ok .info
  else if value = literal "warning" then .ok .warning
  else if value = literal "error" then .ok .error
  else .error ⟨.invalidArgument, "unknown log level: " ++ display value⟩

/-- `parse_allocator_backend`. -/
def parseAllocatorBackend (value : Bytes) : Except HighCacheError AllocatorBackend :=
  if value = literal "system" then .ok .system
  else if value = literal "slab" then .ok .slab
  else .error ⟨.invalidArgument, "unsupported value allocator backend"⟩

/-- The `try` block of `port`. -/
def parsePort (value : Bytes) : Except HighCacheError UInt16 := do
  let parsed ← parseUnsigned value
  if 65535 < parsed then .error ⟨.invalidArgument, "port exceeds uint16 range"⟩
  else .ok (UInt16.ofNat parsed)

/-- The `try` block of the other numbers, which may not be zero. -/
def parsePositive (limit : ℕ) (problem : String) (value : Bytes) : Except HighCacheError ℕ := do
  let parsed ← parseUnsigned value
  if parsed = 0 ∨ limit < parsed then .error ⟨.invalidArgument, problem⟩
  else .ok parsed

/-- The `try` block of `worker_threads`. -/
def parseWorkerThreads : Bytes → Except HighCacheError ℕ :=
  parsePositive 1024 "worker count outside supported range"

/-- The `try` block of `cache_capacity_bytes`. -/
def parseCacheCapacityBytes : Bytes → Except HighCacheError ℕ :=
  parsePositive (2 ^ 64 - 1) "cache capacity outside supported range"

/-- The `try` block of `shard_count`. -/
def parseShardCount : Bytes → Except HighCacheError ℕ :=
  parsePositive 1024 "shard count outside supported range"

/-- `Config`. The values of the fields here are its defaults. -/
structure Config where
  logLevel : LogLevel := .info
  host : Bytes := literal "127.0.0.1"
  port : UInt16 := 11211
  workerThreads : ℕ := 4
  cacheCapacityBytes : ℕ := 64 * 1024 * 1024
  shardCount : ℕ := 64
  allocatorBackend : AllocatorBackend := .slab
  deriving DecidableEq, Repr

/-! ## The lines

The branches of the loop differ in the key, the flag and the member they set. What the source does
in each of them, and in the same order, is to refuse a key that came before, to parse, and to turn
an exception of the parser into one with the name of the source and the number of the line. -/

/-- `throw_parse_error`. -/
def throwParseError (sourceName : String) (lineNumber : ℕ) (detail : String) : HighCacheError :=
  ⟨.configParse, sourceName ++ ":" ++ toString lineNumber ++ ": " ++ detail⟩

/-- The variables of `from_stream` that outlive a line. -/
structure Reading where
  config : Config := {}
  hasLogLevel : Bool := false
  hasHost : Bool := false
  hasPort : Bool := false
  hasWorkerThreads : Bool := false
  hasCacheCapacityBytes : Bool := false
  hasShardCount : Bool := false
  hasAllocatorBackend : Bool := false
  deriving DecidableEq, Repr

namespace Reading

/-- The branch of a key whose value has to be parsed: `has` is its flag, `parse` its `try` block,
and `store` what the branch does with the result. An error is the detail of a parse error. -/
def assign {α : Type} (name : String) (has : Bool) (parse : Bytes → Except HighCacheError α)
    (store : α → Reading) (value : Bytes) : Except String Reading :=
  if has then .error ("duplicate configuration key: " ++ name)
  else match parse value with
    | .error _ => .error ("invalid " ++ name ++ ": " ++ display value)
    | .ok parsed => .ok (store parsed)

/-- The branch of `log_level`. -/
def assignLogLevel (r : Reading) : Bytes → Except String Reading :=
  assign "log_level" r.hasLogLevel parseLogLevel fun level ↦
    { r with config := { r.config with logLevel := level }, hasLogLevel := true }

/-- The branch of `host`, where every value will do. -/
def assignHost (r : Reading) (value : Bytes) : Except String Reading :=
  if r.hasHost then .error "duplicate configuration key: host"
  else .ok { r with config := { r.config with host := value }, hasHost := true }

/-- The branch of `port`. -/
def assignPort (r : Reading) : Bytes → Except String Reading :=
  assign "port" r.hasPort parsePort fun port ↦
    { r with config := { r.config with port := port }, hasPort := true }

/-- The branch of `worker_threads`. -/
def assignWorkerThreads (r : Reading) : Bytes → Except String Reading :=
  assign "worker_threads" r.hasWorkerThreads parseWorkerThreads fun count ↦
    { r with config := { r.config with workerThreads := count }, hasWorkerThreads := true }

/-- The branch of `cache_capacity_bytes`. -/
def assignCacheCapacityBytes (r : Reading) : Bytes → Except String Reading :=
  assign "cache_capacity_bytes" r.hasCacheCapacityBytes parseCacheCapacityBytes fun bytes ↦
    { r with
      config := { r.config with cacheCapacityBytes := bytes }, hasCacheCapacityBytes := true }

/-- The branch of `shard_count`. -/
def assignShardCount (r : Reading) : Bytes → Except String Reading :=
  assign "shard_count" r.hasShardCount parseShardCount fun count ↦
    { r with config := { r.config with shardCount := count }, hasShardCount := true }

/-- The branch of `allocator`. -/
def assignAllocator (r : Reading) : Bytes → Except String Reading :=
  assign "allocator" r.hasAllocatorBackend parseAllocatorBackend fun backend ↦
    { r with config := { r.config with allocatorBackend := backend }, hasAllocatorBackend := true }

/-- The chain of branches. -/
def assignKey (r : Reading) (key value : Bytes) : Except String Reading :=
  if key = literal "log_level" then r.assignLogLevel value
  else if key = literal "host" then r.assignHost value
  else if key = literal "port" then r.assignPort value
  else if key = literal "worker_threads" then r.assignWorkerThreads value
  else if key = literal "cache_capacity_bytes" then r.assignCacheCapacityBytes value
  else if key = literal "shard_count" then r.assignShardCount value
  else if key = literal "allocator" then r.assignAllocator value
  else .error ("unknown configuration key: " ++ display key)

/-- The body of the loop of `from_stream`. -/
def readLine (r : Reading) (line : Bytes) : Except String Reading :=
  let content := trim line
  if content = [] ∨ content.head? = some '#'.toUInt8 then .ok r
  else match content.idxOf? '='.toUInt8 with
    | none => .error "expected key=value"
    | some delimiter =>
      let key := trim (content.take delimiter)
      let value := trim (content.drop (delimiter + 1))
      if key = [] ∨ value = [] then .error "key and value must not be empty"
      else r.assignKey key value

/-- The same with the errors as they are thrown. The number of a line is a `size_t` in the source; a
text has fewer than `2 ^ 64` lines, so it does not wrap. -/
def readNumberedLine (sourceName : String) (lineNumber : ℕ) (line : Bytes) (r : Reading) :
    Except HighCacheError Reading :=
  (r.readLine line).mapError (throwParseError sourceName lineNumber)

end Reading

namespace Config

/-- `Config::from_stream`, of a stream that gives `lines` and is then at its end, or is `bad`. -/
def fromStream (sourceName : String) (lines : List Bytes) (bad : Bool) :
    Except HighCacheError Config := do
  let r ← numbered (Reading.readNumberedLine sourceName) 0 lines {}
  if bad then .error ⟨.configIo, "failed while reading configuration: " ++ sourceName⟩
  else .ok r.config

/-- `Config::from_file`, where `opened` is what the stream of the file gives, if it can be
opened. -/
def fromFile (path : String) (opened : Option (List Bytes × Bool)) :
    Except HighCacheError Config :=
  match opened with
  | none => .error ⟨.configIo, "unable to open configuration file: " ++ path⟩
  | some (lines, bad) => fromStream path lines bad

end Config

end HighCache
