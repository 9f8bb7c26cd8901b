/-!
# Log lines

A log line is a text at a level.
-/

namespace LazyTally

/-- How loud a log line is, from the quietest. -/
inductive LogLevel where
  | trace
  | debug
  | warn
  | error
  deriving DecidableEq, Repr

/-- The written form of a level. -/
def LogLevel.text : LogLevel → String
  | .trace => "TRACE"
  | .debug => "DEBUG"
  | .warn => "WARN"
  | .error => "ERROR"

/-- A line of the log. -/
structure LogLine where
  /-- How loud the line is. -/
  level : LogLevel
  /-- What it says. -/
  text : String
  deriving DecidableEq, Repr

/-- The line as it is written: the level, a space, the text. -/
def LogLine.render (line : LogLine) : String := line.level.text ++ " " ++ line.text

end LazyTally
