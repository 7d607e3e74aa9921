import LanguageServer.Duration
import LanguageServer.Import.Prober
import LanguageServer.Text.Blank

/-! Settings: the defaults, what the environment and the editor put over them. -/
namespace LanguageServer

structure Configuration where
  runtime : Path := ⟨"pike"⟩
  analyzerScript : Option Path := none
  moduleOverride : Option Path := none
  includePaths : List Path := []
  modulePaths : List Path := []
  startupLimit : Duration := .ofMillis 10000
  requestLimit : Duration := .ofMillis 30000
  importLifetime : Duration := .ofMillis 5000
  waterfallLifetime : Duration := .ofMillis 5000
  cycleLifetime : Duration := .ofMillis 5000
  listingLifetime : Duration := .ofSeconds 30
  catalogLifetime : Duration := .ofSeconds 300
  waterfallDepth : Nat := 5
  hierarchyDepth : Nat := 10
  hierarchyItems : Nat := 100
  maxRestarts : Nat := 3
  restartWindow : Duration := .ofSeconds 60
  deriving DecidableEq, Inhabited

/-- What the editor may set, each setting on its own. -/
structure Configuration.Section where
  runtime : Option Path
  analyzerScript : Option Path
  moduleOverride : Option Path
  includePaths : Option (List Path)
  modulePaths : Option (List Path)
  startupMillis : Option Nat
  requestMillis : Option Nat
  importMillis : Option Nat
  waterfallMillis : Option Nat
  cycleMillis : Option Nat
  listingSeconds : Option Nat
  catalogSeconds : Option Nat
  waterfallDepth : Option Nat
  hierarchyDepth : Option Nat
  hierarchyItems : Option Nat
  maxRestarts : Option Nat
  restartSeconds : Option Nat

namespace Configuration

/-- Names of environment variables. -/
def moduleVariable : String := "PIKE_PROGRAM_PATH"
def runtimeVariable : String := "PIKE_LSP_PIKE"
def analyzerVariable : String := "PIKE_LSP_ANALYZER"

/-- The defaults under what the environment sets; a blank value sets nothing. -/
def ofEnvironment (lookup : String → Option String) : Configuration :=
  let path? (name : String) : Option Path :=
    ((lookup name).filter fun v => Text.trim v ≠ "").map Path.mk
  { moduleOverride := path? moduleVariable
    runtime := (path? runtimeVariable).getD ⟨"pike"⟩
    analyzerScript := path? analyzerVariable }

/-- The names of the settings in the order of the fields. -/
def Section.names : List String :=
  ["pikePath", "analyzerScript", "modulePathOverride", "includePaths", "modulePaths",
    "startupTimeoutMs", "requestTimeoutMs", "importCacheTtlMs", "waterfallCacheTtlMs",
    "circularCacheTtlMs", "globCacheTtlSecs", "tagCatalogTtlSecs", "waterfallMaxDepth",
    "hierarchyMaxDepth", "hierarchyMaxItems", "maxRestarts", "restartWindowSecs"]

def Section.ofJson? (j : Json) : Option Section := do
  let count (f : Option Json) := Json.optional (Json.natOfBits? 64) f
  let path (f : Option Json) := Json.optional Path.ofJson? f
  let paths (f : Option Json) := Json.optional (Json.listOf Path.ofJson?) f
  match ← j.fields? names with
  | [a, b, c, d, e, f, g, h, i, k, l, m, n, o, p, q, r] => some ⟨← path a, ← path b, ← path c,
      ← paths d, ← paths e, ← count f, ← count g, ← count h, ← count i, ← count k, ← count l,
      ← count m, ← count n, ← count o, ← count p, ← count q, ← count r⟩
  | _ => none

/-- A number over a setting; zero sets nothing. -/
def orKeep {α : Type} (make : Nat → α) (old : α) (new : Option Nat) : α :=
  match new.filter (0 < ·) with
  | some n => make n
  | none => old

/-- Puts what the editor sets over a configuration. -/
def merge (c : Configuration) (s : Section) : Configuration where
  runtime := s.runtime.getD c.runtime
  analyzerScript := s.analyzerScript.or c.analyzerScript
  moduleOverride := s.moduleOverride.or c.moduleOverride
  includePaths := s.includePaths.getD c.includePaths
  modulePaths := s.modulePaths.getD c.modulePaths
  startupLimit := orKeep .ofMillis c.startupLimit s.startupMillis
  requestLimit := orKeep .ofMillis c.requestLimit s.requestMillis
  importLifetime := orKeep .ofMillis c.importLifetime s.importMillis
  waterfallLifetime := orKeep .ofMillis c.waterfallLifetime s.waterfallMillis
  cycleLifetime := orKeep .ofMillis c.cycleLifetime s.cycleMillis
  listingLifetime := orKeep .ofSeconds c.listingLifetime s.listingSeconds
  catalogLifetime := orKeep .ofSeconds c.catalogLifetime s.catalogSeconds
  waterfallDepth := orKeep id c.waterfallDepth s.waterfallDepth
  hierarchyDepth := orKeep id c.hierarchyDepth s.hierarchyDepth
  hierarchyItems := orKeep id c.hierarchyItems s.hierarchyItems
  maxRestarts := s.maxRestarts.getD c.maxRestarts
  restartWindow := orKeep .ofSeconds c.restartWindow s.restartSeconds

/-- Where modules are looked for after the directory of the importing file. -/
def moduleRoots (c : Configuration) : List Path := c.moduleOverride.toList ++ c.modulePaths

/-- All settings, spans of time as milliseconds in 64 bits, and the module roots. -/
def toJson (c : Configuration) : Json :=
  let ms (d : Duration) : Json := .nat (d.millis % Nat.pow 2 64)
  .object [("analyzer_script", .ofOption Path.toJson c.analyzerScript),
    ("circular_cache_ttl_ms", ms c.cycleLifetime), ("glob_cache_ttl_ms", ms c.listingLifetime),
    ("hierarchy_max_depth", .nat c.hierarchyDepth), ("hierarchy_max_items", .nat c.hierarchyItems),
    ("import_cache_ttl_ms", ms c.importLifetime),
    ("include_paths", .ofList Path.toJson c.includePaths), ("max_restarts", .nat c.maxRestarts),
    ("module_path_override", .ofOption Path.toJson c.moduleOverride),
    ("module_paths", .ofList Path.toJson c.modulePaths),
    ("module_roots", .ofList Path.toJson c.moduleRoots), ("pike_path", c.runtime.toJson),
    ("request_timeout_ms", ms c.requestLimit), ("restart_window_ms", ms c.restartWindow),
    ("startup_timeout_ms", ms c.startupLimit), ("tag_catalog_ttl_ms", ms c.catalogLifetime),
    ("waterfall_cache_ttl_ms", ms c.waterfallLifetime), ("waterfall_max_depth", .nat c.waterfallDepth)]

def prober (c : Configuration) : Prober := ⟨c.includePaths, c.moduleRoots⟩

end Configuration
end LanguageServer
