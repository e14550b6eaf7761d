import HighCache.Cache.Aggregation
import HighCache.Config.Accepted
import HighCache.Net.Connection

/-!
# The server program

`server/main.cpp`: the configuration is read, the engine and the server are made of it, and the
process waits for a signal, stops the server and logs what the engine has counted. Whatever the
system calls answer, a configuration that has been read is never refused because of its numbers:
the constructors check again what the parser has checked (`Program.exit_zero_iff`).

The world answers the system calls, and says what the engine has in the end.
-/

namespace HighCache

/-- `to_string(ErrorCode)`. -/
def ErrorCode.toText : ErrorCode → String
  | .invalidArgument => "invalid_argument"
  | .configIo => "config_io"
  | .configParse => "config_parse"
  | .network => "network"

/-- `to_string(AllocatorBackend)`. -/
def AllocatorBackend.toText : AllocatorBackend → String
  | .system => "system"
  | .slab => "slab"

/-! ## The log

Messages below the level of the logger are dropped, and the others become lines. -/

namespace LogLevel

/-- `to_string(LogLevel)`. -/
def toText : LogLevel → String
  | .debug => "DEBUG"
  | .info => "INFO"
  | .warning => "WARNING"
  | .error => "ERROR"

/-- The number of a level. -/
def rank : LogLevel → ℕ
  | .debug => 0
  | .info => 1
  | .warning => 2
  | .error => 3

end LogLevel

/-- `Logger`, with the lines it has written. -/
structure Logger where
  minimumLevel : LogLevel
  lines : List String := []
  deriving DecidableEq, Repr

namespace Logger

/-- `Logger::log`. -/
def log (level : LogLevel) (message : String) (l : Logger) : Logger :=
  if level.rank < l.minimumLevel.rank then l
  else { l with lines := l.lines ++ ["[" ++ level.toText ++ "] " ++ message ++ "\n"] }

/-- `Logger::info`. -/
def info (message : String) (l : Logger) : Logger := l.log .info message

end Logger

/-! ## The options of the server -/

/-- `ServerOptions`. -/
structure ServerOptions where
  host : Bytes := Scan.literal "127.0.0.1"
  port : UInt16 := 11211
  workerThreads : ℕ := 4
  pendingOutputLimit : ℕ := 4 * 1024 * 1024
  deriving DecidableEq, Repr

/-- `validate_options`. -/
def ServerOptions.validate (options : ServerOptions) : Except HighCacheError ServerOptions :=
  if options.workerThreads = 0 then
    .error ⟨.invalidArgument, "server worker count must be greater than zero"⟩
  else if options.pendingOutputLimit < Protocol.responseHeaderSize then
    .error ⟨.invalidArgument, "server output limit is too small"⟩
  else .ok options

/-! ## The world

The system calls of the set-up can each fail; the threads cannot be seen from here, and whether they
could be started is one answer. -/

/-- The system calls of the constructor of the server and of `start` that can fail. -/
inductive SetupCall where
  | socket
  | reuseAddr
  | bind
  | listen
  | getsockname
  | epollCreate
  | eventfd
  | timerfdCreate
  | epollAdd
  | timerfdSettime
  deriving DecidableEq, Repr

/-- What `throw_network_error` is told. -/
def SetupCall.operation : SetupCall → String
  | .socket => "socket failed"
  | .reuseAddr => "setsockopt SO_REUSEADDR failed"
  | .bind => "bind failed"
  | .listen => "listen failed"
  | .getsockname => "getsockname failed"
  | .epollCreate => "epoll_create1 failed"
  | .eventfd => "eventfd failed"
  | .timerfdCreate => "timerfd_create failed"
  | .epollAdd => "epoll_ctl add failed"
  | .timerfdSettime => "timerfd_settime failed"

/-- How `block_shutdown_signals` ends. -/
inductive SignalResult where
  | blocked
  | unprepared
  | unblocked
  deriving DecidableEq, Repr

/-- How the system calls of the constructor end. -/
inductive ConstructResult where
  /-- The socket is bound to `port`. -/
  | constructed (port : UInt16)
  | notAnAddress
  | failed (call : SetupCall) (description : String)
  deriving DecidableEq, Repr

/-- How `start` ends. A thread that cannot be made is an exception of the standard library. -/
inductive StartResult where
  | started
  | failed (call : SetupCall) (description : String)
  | noThread (description : String)
  deriving DecidableEq, Repr

/-- The answers to the system calls, and the engine in the end. -/
structure World where
  /-- The stream of the file, if it can be opened. -/
  file : Option (List Bytes × Bool)
  signals : SignalResult
  construct : ConstructResult
  start : StartResult
  /-- Whether `sigwait` succeeds. -/
  waited : Bool
  entries : ℕ
  logicalBytes : ℕ
  metrics : MetricsTotal

namespace Program

/-- An exception that `main` catches. -/
inductive Exception where
  | highCache (error : HighCacheError)
  | other (what : String)
  deriving DecidableEq, Repr

/-- `throw_network_error`. -/
def networkError (call : SetupCall) (description : String) : Exception :=
  .highCache ⟨.network, call.operation ++ ": " ++ description⟩

/-- `usage` of `print_usage` and of the exception. -/
def usage : String := "usage: highcache_server [config-file]"

/-- The configuration: the file's, or the default. -/
def readConfig (world : World) : List String → Except Exception Config
  | [] => .ok {}
  | [path] =>
    match Config.fromFile path world.file with
    | .error error => .error (.highCache error)
    | .ok config => .ok config
  | _ => .error (.highCache ⟨.invalidArgument, usage⟩)

/-- `block_shutdown_signals`. -/
def blockShutdownSignals (world : World) : Except Exception Unit :=
  match world.signals with
  | .blocked => .ok ()
  | .unprepared => .error (.highCache ⟨.network, "unable to prepare shutdown signals"⟩)
  | .unblocked => .error (.highCache ⟨.network, "unable to block shutdown signals"⟩)

/-- The engine of a configuration. -/
def makeEngine (config : Config) : Except Exception (CacheEngine config.shardCount) :=
  match CacheEngine.new config.cacheCapacityBytes config.shardCount with
  | .error error => .error (.highCache error)
  | .ok engine => .ok engine

/-- The options of the server of a configuration. The limit is the default. -/
def serverOptions (config : Config) : ServerOptions where
  host := config.host
  port := config.port
  workerThreads := config.workerThreads

/-- The constructor of the server: the port it listens on. -/
def makeServer (world : World) (config : Config) : Except Exception UInt16 :=
  match (serverOptions config).validate with
  | .error error => .error (.highCache error)
  | .ok _ =>
    match world.construct with
    | .constructed port => .ok port
    | .notAnAddress => .error (.highCache ⟨.invalidArgument, "server host must be an IPv4 address"⟩)
    | .failed call description => .error (networkError call description)

/-- `CacheServer::start`. -/
def startServer (world : World) : Except Exception Unit :=
  match world.start with
  | .started => .ok ()
  | .failed call description => .error (networkError call description)
  | .noThread description => .error (.other description)

/-- `main` up to the first line of the log: the configuration and the port. -/
def setUp (world : World) (arguments : List String) : Except Exception (Config × UInt16) := do
  let config ← readConfig world arguments
  blockShutdownSignals world
  let _ ← makeEngine config
  let port ← makeServer world config
  startServer world
  .ok (config, port)

/-- The first line of the log. -/
def startupMessage (config : Config) (host : String) (port : UInt16) : String :=
  "HighCache listening on " ++ host ++ ":" ++ toString port ++ " with "
    ++ toString config.workerThreads ++ " workers, " ++ toString config.shardCount
    ++ " cache shards, and " ++ config.allocatorBackend.toText ++ " value allocation"

/-- The line about the metrics. -/
def metricsMessage (world : World) : String :=
  "Cache metrics: entries=" ++ toString world.entries
    ++ " logical_bytes=" ++ toString world.logicalBytes
    ++ " allocator_reserved_bytes=" ++ toString world.metrics.allocatedBytes
    ++ " allocator_used_bytes=" ++ toString world.metrics.usedBytes
    ++ " allocator_fragmentation_bytes=" ++ toString world.metrics.internalFragmentation
    ++ " allocator_allocations=" ++ toString world.metrics.allocationCount
    ++ " allocator_deallocations=" ++ toString world.metrics.deallocationCount
    ++ " allocator_slabs=" ++ toString world.metrics.slabCount

/-- What the process leaves. -/
structure Exit where
  status : ℕ
  output : String
  log : List String
  err : String
  deriving DecidableEq, Repr

/-- The handlers of `main`. -/
def failed (log : List String) : Exception → Exit
  | .highCache error =>
    ⟨1, "", log, "highcache_server: " ++ error.code.toText ++ ": " ++ error.message ++ "\n"⟩
  | .other what => ⟨1, "", log, "highcache_server: unexpected error: " ++ what ++ "\n"⟩

/-- `main`. The bytes of a host are written as they are; `host` is the text they are. -/
def main (host : Bytes → String) (world : World) (arguments : List String) : Exit :=
  if arguments = ["--help"] then ⟨0, usage ++ "\n", [], ""⟩
  else
    match setUp world arguments with
    | .error exception => failed [] exception
    | .ok (config, port) =>
      let logger : Logger := { minimumLevel := config.logLevel }
      let logger := logger.info (startupMessage config (host config.host) port)
      if world.waited = false then
        failed logger.lines (.highCache ⟨.network, "unable to wait for shutdown signal"⟩)
      else
        let logger := logger.info (metricsMessage world)
        let logger := logger.info "HighCache stopped"
        ⟨0, "", logger.lines, ""⟩

end Program

/-! ## Accepted configurations

The parser bounds each number, and the constructors test for zero and for a host that is empty. A
configuration that has been read passes these tests, whatever its lines were and also where it has
no lines at all. -/

/-- What the constructors of the engine and of the server require, and more. -/
structure Config.Runnable (config : Config) : Prop where
  workerThreads : 1 ≤ config.workerThreads ∧ config.workerThreads ≤ 1024
  cacheCapacityBytes : 1 ≤ config.cacheCapacityBytes ∧ config.cacheCapacityBytes ≤ 2 ^ 64 - 1
  shardCount : 1 ≤ config.shardCount ∧ config.shardCount ≤ 1024

theorem Config.runnable_default : ({} : Config).Runnable :=
  ⟨by decide, by decide, by decide⟩

private theorem exists_reads_of_mem {lines : List Bytes} {said : List (Option Setting)}
    (h : List.Forall₂ Reads lines said) {o : Option Setting} (ho : o ∈ said) :
    ∃ line, Reads line o := by
  induction h with
  | nil => cases ho
  | cons hreads hrest ih =>
    rcases List.mem_cons.mp ho with rfl | ho
    · exact ⟨_, hreads⟩
    · exact ih ho

/-- A setting of a configuration that has been read was denoted by a value. -/
private theorem Accepts.denotes {lines : List Bytes} {settings : List Setting}
    (h : Accepts lines settings) {s : Setting} (hs : s ∈ settings) : ∃ value, s.Denotes value := by
  obtain ⟨said, hsaid, rfl, -⟩ := h
  obtain ⟨line, hreads⟩ := exists_reads_of_mem hsaid (List.reduceOption_mem_iff.mp hs)
  cases hreads with
  | assigned _ _ _ _ _ _ _ _ _ hdenotes => exact ⟨_, hdenotes⟩

theorem Overrides.setting {lines : List Bytes} {settings : List Setting} {config : Config}
    (haccepts : Accepts lines settings) (h : Overrides settings config) (k : Key) :
    (∃ value, (config.setting k).Denotes value) ∨ config.setting k = ({} : Config).setting k := by
  rcases h k with ⟨s, hs, -, hset⟩ | ⟨-, hset⟩
  · rw [hset]
    exact .inl (haccepts.denotes hs)
  · exact .inr hset

private theorem Config.runnable_of_fromStream {sourceName : String} {lines : List Bytes}
    {config : Config} (h : fromStream sourceName lines false = .ok config) : config.Runnable := by
  obtain ⟨settings, haccepts⟩ := acceptable_of_ok h
  obtain ⟨config', hok, hoverrides⟩ := ok_of_accepts sourceName haccepts
  rw [h] at hok
  cases hok
  have hworkers := hoverrides.setting haccepts .workerThreads
  have hcapacity := hoverrides.setting haccepts .cacheCapacityBytes
  have hshards := hoverrides.setting haccepts .shardCount
  refine ⟨?_, ?_, ?_⟩
  · rcases hworkers with ⟨value, -, hrange⟩ | hdefault
    · exact hrange
    · rw [Setting.workerThreads.inj hdefault]
      exact runnable_default.workerThreads
  · rcases hcapacity with ⟨value, -, hrange⟩ | hdefault
    · exact hrange
    · rw [Setting.cacheCapacityBytes.inj hdefault]
      exact runnable_default.cacheCapacityBytes
  · rcases hshards with ⟨value, -, hrange⟩ | hdefault
    · exact hrange
    · rw [Setting.shardCount.inj hdefault]
      exact runnable_default.shardCount

private theorem Config.runnable_of_fromFile {path : String} {file : Option (List Bytes × Bool)}
    {config : Config} (h : fromFile path file = .ok config) : config.Runnable := by
  rcases file with _ | ⟨lines, bad⟩
  · cases h
  · cases bad with
    | false => exact runnable_of_fromStream h
    | true =>
      change fromStream path lines true = .ok config at h
      rw [fromStream] at h
      obtain ⟨r, -, hbad⟩ := Except.bind_eq_ok_iff.mp h
      cases hbad

namespace Program

variable {world : World} {arguments : List String}

private theorem runnable_of_readConfig {config : Config}
    (h : readConfig world arguments = .ok config) :
    config.Runnable := by
  rcases arguments with _ | ⟨path, _ | ⟨other, rest⟩⟩
  · cases h
    exact Config.runnable_default
  · rw [readConfig] at h
    cases hfile : Config.fromFile path world.file with
    | error error =>
      rw [hfile] at h
      cases h
    | ok config' =>
      rw [hfile] at h
      cases h
      exact Config.runnable_of_fromFile hfile
  · cases h

private theorem exists_makeEngine {config : Config} (h : config.Runnable) :
    ∃ engine, makeEngine config = .ok engine := by
  have hne : config.shardCount ≠ 0 := Nat.one_le_iff_ne_zero.mp h.shardCount.1
  rw [makeEngine, CacheEngine.new, dif_neg hne]
  exact ⟨_, rfl⟩

theorem makeServer_ok_iff {config : Config} (h : config.Runnable) {port : UInt16} :
    makeServer world config = .ok port ↔ world.construct = .constructed port := by
  have hne : config.workerThreads ≠ 0 := Nat.one_le_iff_ne_zero.mp h.workerThreads.1
  have hlimit : ¬(serverOptions config).pendingOutputLimit < Protocol.responseHeaderSize :=
    show ¬4 * 1024 * 1024 < Protocol.responseHeaderSize by decide
  have hvalid : (serverOptions config).validate = .ok (serverOptions config) :=
    (if_neg hne).trans (if_neg hlimit)
  rw [makeServer, hvalid]
  cases world.construct <;> simp

theorem blockShutdownSignals_ok_iff {u : Unit} :
    blockShutdownSignals world = .ok u ↔ world.signals = .blocked := by
  rw [blockShutdownSignals]
  cases world.signals <;> simp

theorem startServer_ok_iff {u : Unit} : startServer world = .ok u ↔ world.start = .started := by
  rw [startServer]
  cases world.start <;> simp

theorem setUp_ok_iff {config : Config} {port : UInt16} :
    setUp world arguments = .ok (config, port)
      ↔ readConfig world arguments = .ok config ∧ world.signals = .blocked
        ∧ world.construct = .constructed port ∧ world.start = .started := by
  simp only [setUp, Except.bind_eq_ok_iff]
  constructor
  · rintro ⟨config', hconfig, u, hsignals, engine, -, port', hserver, v, hstart, heq⟩
    cases heq
    exact ⟨hconfig, blockShutdownSignals_ok_iff.mp hsignals,
      (makeServer_ok_iff (runnable_of_readConfig hconfig)).mp hserver, startServer_ok_iff.mp hstart⟩
  · rintro ⟨hconfig, hsignals, hconstruct, hstart⟩
    have hrunnable := runnable_of_readConfig hconfig
    obtain ⟨engine, hengine⟩ := exists_makeEngine hrunnable
    exact ⟨config, hconfig, (), blockShutdownSignals_ok_iff.mpr hsignals, engine, hengine, port,
      (makeServer_ok_iff hrunnable).mpr hconstruct, (), startServer_ok_iff.mpr hstart, rfl⟩

private theorem status_failed (log : List String) (exception : Exception) :
    (failed log exception).status = 1 := by
  cases exception <;> rfl

/-- **A configuration that has been read is run.** The status of the process is zero exactly if help
was asked for, or there is a configuration and every system call succeeds: neither the engine nor
the server refuses what the parser accepts. -/
theorem exit_zero_iff (host : Bytes → String) (world : World) (arguments : List String) :
    (main host world arguments).status = 0
      ↔ arguments = ["--help"]
        ∨ (∃ config, readConfig world arguments = .ok config) ∧ world.signals = .blocked
          ∧ (∃ port, world.construct = .constructed port) ∧ world.start = .started
          ∧ world.waited = true := by
  rw [main]
  by_cases hhelp : arguments = ["--help"]
  · rw [if_pos hhelp]
    exact ⟨fun _ ↦ .inl hhelp, fun _ ↦ rfl⟩
  · rw [if_neg hhelp]
    simp only [hhelp, false_or]
    cases hsetup : setUp world arguments with
    | error exception =>
      dsimp only
      rw [status_failed]
      refine ⟨by rintro ⟨⟩, ?_⟩
      rintro ⟨⟨config, hconfig⟩, hsignals, ⟨port, hconstruct⟩, hstart, -⟩
      rw [setUp_ok_iff.mpr ⟨hconfig, hsignals, hconstruct, hstart⟩] at hsetup
      cases hsetup
    | ok r =>
      obtain ⟨config, port⟩ := r
      obtain ⟨hconfig, hsignals, hconstruct, hstart⟩ := setUp_ok_iff.mp hsetup
      dsimp only
      split_ifs with hwaited
      · -- the server runs, but the wait for a signal fails
        rw [status_failed]
        refine ⟨by rintro ⟨⟩, ?_⟩
        rintro ⟨-, -, -, -, htrue⟩
        rw [hwaited] at htrue
        cases htrue
      · exact ⟨fun _ ↦ ⟨⟨config, hconfig⟩, hsignals, ⟨port, hconstruct⟩, hstart,
          Bool.not_eq_false _ ▸ hwaited⟩, fun _ ↦ rfl⟩

end Program

end HighCache
