/-!
# SwapMachine.Log — lines of the log

Operations that report what they did return their log lines beside their result.
-/

namespace SwapMachine

/-- How much a log line matters. -/
inductive Level where
  | debug
  | info
  | warning
  deriving DecidableEq

/-- The name of a level. -/
def Level.name : Level → String
  | debug => "DEBUG"
  | info => "INFO"
  | warning => "WARNING"

/-- A line of the log, with the part of the machine that wrote it. -/
structure LogLine where
  level : Level
  source : String
  text : String
  deriving DecidableEq

end SwapMachine
