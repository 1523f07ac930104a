import CodeAtlas.Json.Basic
import CodeAtlas.Log.Level

/-!
# Log records

A message becomes a record of fields: those of its context, its own, its text, its logger and its level. Credentials never appear in a
record, and long texts are cut down to their end, where the output of a tool tells what went wrong.
-/

namespace CodeAtlas

/-- A message of the indexer. -/
structure LogEvent where
  level : LogLevel
  text : String
  fields : List (String × Json) := []

/-- A logger: its name and the threshold of the whole log. -/
structure Logger where
  name : String
  threshold : Int := LogLevel.info.number

namespace Logger

/-- Loggers of libraries that chatter. -/
def noisy : List String := ["neo4j", "httpx", "httpcore"]

/-- Whether a logger is one of those or lies below one. -/
def isNoisy (l : Logger) : Bool := noisy.any fun n => l.name == n || l.name.text.startsWith (n ++ ".")

/-- The level from which on messages of a logger are recorded: noisy loggers only warn. -/
def effectiveThreshold (l : Logger) : Int := if l.isNoisy then max l.threshold LogLevel.warning.number else l.threshold

/-- The logger without a name is the root of all others. -/
def shownName (l : Logger) : String := if l.name.isEmpty then "root" else l.name

end Logger

namespace LogEvent

/-- The fields whose values are credentials. -/
def sensitiveFields : List String := ["password", "secret", "token", "auth", "NEO4J_PASSWORD"]

/-- How many characters a text in a record has at most. -/
def maxCharacters : Nat := 2000

/-- The end of a text that is too long. -/
def shortened (s : String) : String :=
  if maxCharacters < s.length then "..." ++ String.ofList (s.text.drop (s.length - maxCharacters)) else s

/-- What a record shows of a field. The text of the message is never cut. -/
def shown (name : String) (value : Json) : Json :=
  if sensitiveFields.contains name then .str "[FILTERED]"
  else match value with
    | .str s => if name = "event" then value else .str (shortened s)
    | _ => value

/-- Fields that the log fills itself: a time, and the failure being handled. -/
def reservedFields : List String := ["timestamp", "exc_info"]

/-- The record of an event, without its time. -/
def record (logger : Logger) (context : List (String × Json)) (e : LogEvent) : List (String × Json) :=
  let fields := Json.mergeFields (Json.mergeFields context e.fields)
    [("event", .str e.text), ("logger", .str logger.shownName), ("level", .str e.level.name)]
  (fields.filter fun f => !reservedFields.contains f.1).map fun f => (f.1, shown f.1 f.2)

/-- The records of some events: those that reach the threshold of their logger. -/
def records (logger : Logger) (context : List (String × Json)) (events : List LogEvent) : List (List (String × Json)) :=
  (events.filter fun e => decide (logger.effectiveThreshold ≤ e.level.number)).map (record logger context)

end LogEvent

end CodeAtlas
