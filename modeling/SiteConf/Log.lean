set_option autoImplicit false

/-! # Log lines

What the program notes while it works. The lines are part of its answer: every operation says
which lines it writes, and in what order. -/

namespace SiteConf

/-- How much a log line matters, the most severe first. -/
inductive Level where
  | error
  | warn
  | info
  | debug
  | trace
  deriving DecidableEq, Repr

/-- A larger rank is a chattier level. -/
def Level.rank : Level → Nat
  | .error => 1
  | .warn => 2
  | .info => 3
  | .debug => 4
  | .trace => 5

/-- The name of a level in capitals. -/
def Level.name : Level → String
  | .error => "ERROR"
  | .warn => "WARN"
  | .info => "INFO"
  | .debug => "DEBUG"
  | .trace => "TRACE"

structure LogEntry where
  level : Level
  message : String
  deriving DecidableEq, Repr

/-- Log lines in the order in which they were written. -/
abbrev Log := List LogEntry

/-- The lines that are at least as severe as `limit`. -/
def Log.upTo (limit : Level) (log : Log) : Log :=
  log.filter fun e => decide (e.level.rank ≤ limit.rank)

end SiteConf
