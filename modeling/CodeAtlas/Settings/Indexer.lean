import CodeAtlas.Log.Level
import CodeAtlas.Settings.Value

/-!
# Settings of the indexer
-/

namespace CodeAtlas

/-- Where the graph is kept. -/
inductive StoreKind where
  /-- In the memory of the process. -/
  | memory
  /-- In a graph database. -/
  | database
  /-- Behind a service. -/
  | service
  deriving DecidableEq, Repr

namespace StoreKind

/-- The name of a kind of store. -/
def name : StoreKind → String
  | memory => "memory"
  | database => "neo4j"
  | service => "repository_service"

/-- The kind with a name. -/
def ofName (s : String) : Except SettingProblem StoreKind :=
  match [memory, database, service].find? fun k => k.name == s with
  | some k => .ok k
  | none => .error .notChoice

end StoreKind

/-- The settings of the indexer. -/
structure IndexerSettings where
  port : Int := 8000
  logLevel : String := "INFO"
  store : StoreKind := .database
  serviceUrl : String := "http://neo4j-repository-service:8080"
  serviceTimeout : Binary64 := .ofInt 120
  /-- How many lines of an entity are kept as its body. -/
  maxBodyLines : Int := 3000
  /-- Larger files are not read. -/
  maxFileBytes : Int := 1048576
  workers : Int := 4
  /-- How long reading a file may take, in seconds. -/
  fileTimeout : Binary64 := .ofInt 30
  /-- Whether external tools index the packages. -/
  toolsEnabled : Bool := true
  /-- How long a tool may take, in seconds. -/
  toolTimeout : Binary64 := .ofInt 600
  /-- How many files are read between two heartbeats. -/
  heartbeatEvery : Int := 100

namespace IndexerSettings

/-- The settings under other defaults. -/
def reader (env : Environment) (d : IndexerSettings) : Gathering SettingFault IndexerSettings := do
  return {
    port := ← env.setting Setting.whole "API_PORT" d.port
    logLevel := ← env.setting Setting.anyText "LOG_LEVEL" d.logLevel
    store := ← env.setting StoreKind.ofName "GRAPH_STORE_BACKEND" d.store
    serviceUrl := ← env.setting Setting.anyText "REPOSITORY_SERVICE_URL" d.serviceUrl
    serviceTimeout := ← env.setting Setting.duration "REPOSITORY_SERVICE_TIMEOUT_S" d.serviceTimeout
    maxBodyLines := ← env.setting Setting.count "MAX_BODY_LINES" d.maxBodyLines
    maxFileBytes := ← env.setting Setting.count "MAX_FILE_BYTES" d.maxFileBytes
    workers := ← env.setting Setting.count "PARSE_WORKERS" d.workers
    fileTimeout := ← env.setting Setting.duration "PARSE_FILE_TIMEOUT_S" d.fileTimeout
    toolsEnabled := ← env.setting Setting.truth "PRECISE_ENABLED" d.toolsEnabled
    toolTimeout := ← env.setting Setting.duration "PRECISE_TIMEOUT_S" d.toolTimeout
    heartbeatEvery := ← env.setting Setting.count "HEARTBEAT_EVERY" d.heartbeatEvery }

/-- The settings that an environment makes, or all that is wrong with them. -/
def ofEnvironment (env : Environment) (defaults : IndexerSettings := {}) : Except (List SettingFault) IndexerSettings :=
  (reader env defaults).result

/-- The threshold of the log. -/
def logThreshold (s : IndexerSettings) : Int := LogLevel.threshold s.logLevel

/-- Whether an address names a path on its host. -/
def hasPath (url : Text) : Bool := (Text.afterLast url "://").contains '/'

/-- The address that requests to the service begin with: without slashes at its end, but for the one after a path. -/
def serviceBase (s : IndexerSettings) : String :=
  let url := Text.trimRight (· == '/') s.serviceUrl.text
  String.ofList (if hasPath url then url ++ ['/'] else url)

end IndexerSettings

end CodeAtlas
