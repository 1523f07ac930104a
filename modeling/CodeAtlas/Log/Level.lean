import CodeAtlas.Text.Letter

/-!
# Log levels

How grave a message is. Levels are compared by their numbers, and a threshold may be any number.
-/

namespace CodeAtlas

/-- The gravity of a message. -/
inductive LogLevel where
  | debug
  | info
  | warning
  | error
  | critical
  deriving DecidableEq, Repr

namespace LogLevel

/-- The place of a level among the others. -/
def number : LogLevel → Int
  | debug => 10
  | info => 20
  | warning => 30
  | error => 40
  | critical => 50

/-- The name of a level. -/
def name : LogLevel → String
  | debug => "debug"
  | info => "info"
  | warning => "warning"
  | error => "error"
  | critical => "critical"

/-- The level with a name; three of them have a second name. -/
def ofName? (name : String) : Option LogLevel :=
  if name = "debug" then some debug
  else if name = "info" then some info
  else if name = "warning" ∨ name = "warn" then some warning
  else if name = "error" ∨ name = "exception" then some error
  else if name = "critical" ∨ name = "fatal" then some critical
  else none

/-- The threshold that a setting names, in any case of its letters; what is no name stands for `info`. -/
def threshold (name : String) : Int :=
  match String.ofList (name.text.map Text.upperAscii) with
  | "CRITICAL" | "FATAL" => critical.number
  | "ERROR" => error.number
  | "WARNING" | "WARN" => warning.number
  | "DEBUG" => debug.number
  | "NOTSET" => 0
  | _ => info.number

end LogLevel

end CodeAtlas
