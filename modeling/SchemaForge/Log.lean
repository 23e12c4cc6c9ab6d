/-!
# Log lines

What a run says of its progress, each line with a level and the part of the program that says it.

* `Log.Line.text`: a line as it is written.
-/

namespace SchemaForge.Log

/-- How much a line matters. -/
inductive Level where
  | debug
  | info
  | warning
  | error
  deriving DecidableEq, Repr, Inhabited

/-- The name of a level. -/
def Level.name : Level → String
  | .debug => "DEBUG"
  | .info => "INFO"
  | .warning => "WARNING"
  | .error => "ERROR"

/-- Whether a level is written where details are not asked for. -/
def Level.isUrgent : Level → Bool
  | .debug | .info => false
  | .warning | .error => true

/-- The parts of the program that write lines. -/
inductive Speaker where
  | material
  | generation
  deriving DecidableEq, Repr, Inhabited

/-- The name of a part of the program. -/
def Speaker.name : Speaker → String
  | .material => "tangen.core.loaders"
  | .generation => "tangen.core.generator"

/-- A line of the log. -/
structure Line where
  level : Level
  speaker : Speaker
  message : String
  deriving DecidableEq, Repr, Inhabited

/-- A line as it is written. -/
def Line.text (l : Line) : String := l.level.name ++ " " ++ l.speaker.name ++ ": " ++ l.message

end SchemaForge.Log
