import ActionPolicy.Cache.Config
import ActionPolicy.CommandLine.Option
import ActionPolicy.RuleTable.Source

/-!
# Settings

What the program is told about its rule table, its log and its cache.

## Main definitions

* `Settings` – the settings; `Settings.usual` if nothing is said.
* `Settings.options` – the options that say something.
* `Settings.read` – the settings that arguments and variables make.
-/

namespace ActionPolicy

/-- How lines are logged. -/
inductive LogFormat where
  | text
  | json
  deriving DecidableEq, Repr, Inhabited

instance : Named LogFormat where
  all := [.text, .json]
  name
    | .text => "text"
    | .json => "json"

/-- What the program is told. -/
structure Settings where
  /-- The file with the rule table; without one the built-in table is used. -/
  tablePath : Option String
  profile : Profile
  logLevel : String
  logFormat : LogFormat
  /-- How many decisions are held at most. -/
  cacheCapacity : Nat
  /-- How long a decision stays valid, in seconds. -/
  defaultTtlSecs : Nat
  /-- How often expired decisions are swept out, in seconds. -/
  sweepIntervalSecs : Nat
  /-- Decisions are held in encoded form. -/
  compress : Bool
  deriving DecidableEq, Repr

namespace Settings

/-- The settings if nothing is said. -/
def usual : Settings := ⟨none, .desktop, "info", .text, 200, 600, 120, true⟩

/-- The options that say something, in their order. -/
def options : List OptionDecl := [
  .withVariable "table-path" "FLOWPOLICY_TABLE_PATH" .path,
  .withVariable "profile" "FLOWPOLICY_PROFILE" (.word (Named.names Profile)),
  .withVariable "log-level" "RUST_LOG" .text,
  .withVariable "log-format" "FLOWPOLICY_LOG_FORMAT" (.word (Named.names LogFormat)),
  .withVariable "cache-capacity" "FLOWPOLICY_CACHE_CAPACITY" .number,
  .withVariable "default-ttl-secs" "FLOWPOLICY_DEFAULT_TTL_SECS" .number,
  .withVariable "sweep-interval-secs" "FLOWPOLICY_SWEEP_INTERVAL_SECS" .number,
  .withVariable "compress" "FLOWPOLICY_COMPRESS" (.word ["true", "false"])]

/-- The settings that given values make. -/
def ofGiven (g : Given) : Settings :=
  let named {α : Type} [Named α] (name : String) (usual : α) : α :=
    ((g.get? name).bind Named.ofName?).getD usual
  let number (name : String) (usual : Nat) : Nat :=
    ((g.get? name).bind ValueKind.number?).getD usual
  { tablePath := g.get? "table-path"
    profile := named "profile" usual.profile
    logLevel := (g.get? "log-level").getD usual.logLevel
    logFormat := named "log-format" usual.logFormat
    cacheCapacity := number "cache-capacity" usual.cacheCapacity
    defaultTtlSecs := number "default-ttl-secs" usual.defaultTtlSecs
    sweepIntervalSecs := number "sweep-interval-secs" usual.sweepIntervalSecs
    compress := ((g.get? "compress").map (· == "true")).getD usual.compress }

/-- The settings that arguments and variables make. -/
def read (arguments : List String) (environment : String → Option String) :
    Except Interruption Settings :=
  (Given.read ⟨options, false⟩ arguments environment).map ofGiven

/-- The settings of the cache. -/
def cacheConfig (s : Settings) : CacheConfig :=
  ⟨s.cacheCapacity, .ofSecs s.defaultTtlSecs, .ofSecs s.sweepIntervalSecs, s.compress⟩

/-- Where the rule table comes from. -/
def source (s : Settings) : TableSource := .ofPath s.tablePath s.profile

end Settings

end ActionPolicy
