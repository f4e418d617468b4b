/-!
# Log events
-/

namespace TypeDoctrine

/-- How much an event matters. -/
inductive LogLevel where
  | debug
  | info
  | warn
deriving DecidableEq, Repr

/-- The name of a level. -/
def LogLevel.name : LogLevel → String
  | .debug => "DEBUG"
  | .info => "INFO"
  | .warn => "WARN"

/-- Something that happened and is worth a line in a log. -/
structure LogEvent where
  level : LogLevel
  message : String
deriving DecidableEq, Repr

/-- The line of an event. -/
def LogEvent.line (e : LogEvent) : String :=
  e.level.name ++ " " ++ e.message

end TypeDoctrine
