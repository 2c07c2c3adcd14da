namespace StackLang

/-!
# Log lines

Compilation and execution can tell what they do. Each line carries a level: a
whole compilation or run is announced for debugging, a single instruction for
tracing.
-/

/-- How detailed a log line is. -/
inductive LogLevel where
  | debug
  | trace
  deriving DecidableEq

/-- The name of a level at the start of a line. -/
def LogLevel.name : LogLevel → String
  | .debug =>
      "DEBUG"
  | .trace =>
      "TRACE"

/-- A log line of a level. -/
def LogLevel.line (level : LogLevel) (text : String) : String :=
  level.name ++ " " ++ text

end StackLang
