import CodeAtlas.Settings.Value
import CodeAtlas.Store.Bolt

/-!
# Settings of the graph database
-/

namespace CodeAtlas

/-- How the graph database is reached and how requests to it are made. -/
structure DatabaseSettings where
  uri : String := "bolt://localhost:7687"
  username : String := "neo4j"
  password : String := "neo4j123"
  database : String := "neo4j"
  /-- How long a connection is kept, in seconds. -/
  connectionTimeout : Binary64 := .ofInt 30
  connections : Int := 50
  batchSize : Int := 500
  attempts : Int := 3
  /-- The base of the waits between attempts, in seconds. -/
  backoffBase : Binary64 := .ofInt 2

namespace DatabaseSettings

/-- The settings under other defaults. -/
def reader (env : Environment) (d : DatabaseSettings) : Gathering SettingFault DatabaseSettings := do
  return {
    uri := ← env.setting Setting.anyText "NEO4J_URI" d.uri
    username := ← env.setting Setting.anyText "NEO4J_USERNAME" d.username
    password := ← env.setting Setting.anyText "NEO4J_PASSWORD" d.password
    database := ← env.setting Setting.anyText "NEO4J_DATABASE" d.database
    connectionTimeout := ← env.setting Setting.positiveNumber "NEO4J_CONNECTION_TIMEOUT" d.connectionTimeout
    connections := ← env.setting Setting.positiveWhole "NEO4J_MAX_CONNECTION_POOL_SIZE" d.connections
    batchSize := ← env.setting Setting.positiveWhole "NEO4J_WRITE_BATCH_SIZE" d.batchSize
    attempts := ← env.setting Setting.positiveWhole "RETRY_MAX_ATTEMPTS" d.attempts
    backoffBase := ← env.setting Setting.positiveNumber "RETRY_BACKOFF_BASE_SEC" d.backoffBase }

/-- The settings that an environment makes, or all that is wrong with them. -/
def ofEnvironment (env : Environment) : Except (List SettingFault) DatabaseSettings := (reader env {}).result

/-- How requests are made under the settings. -/
def requests (s : DatabaseSettings) : Bolt.Settings where
  database := s.database
  batchSize := s.batchSize.toNat
  retries := { attempts := s.attempts.toNat, base := s.backoffBase }

end DatabaseSettings

end CodeAtlas
