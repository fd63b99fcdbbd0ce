/-!
# Log levels

From the most to the least severe.  A logger with a level passes on the events at that level and
above it.
-/

namespace ChainMapping

inductive Level where
  | error
  | warning
  | info
  | debug
  deriving DecidableEq, Repr

namespace Level

def rank : Level → Nat
  | error => 0
  | warning => 1
  | info => 2
  | debug => 3

/-- The level in a log line. -/
def name : Level → String
  | error => "ERROR"
  | warning => "WARN"
  | info => "INFO"
  | debug => "DEBUG"

/-- The level in a compiler-style report. -/
def label : Level → String
  | error => "error"
  | warning => "warning"
  | info => "info"
  | debug => "debug"

/-- The level in a settings file. -/
def title : Level → String
  | error => "Error"
  | warning => "Warning"
  | info => "Info"
  | debug => "Debug"

/-- The level of a number; everything beyond the last one is the last one. -/
def ofNumber : Nat → Level
  | 0 => error
  | 1 => warning
  | 2 => info
  | _ => debug

/-- Reads a level written as a name, in any case of letters, or as a digit. -/
def parse (text : String) : Except String Level :=
  let lower := text.map Char.toLower
  if lower = "error" || lower = "0" then .ok error
  else if lower = "warning" || lower = "warn" || lower = "1" then .ok warning
  else if lower = "info" || lower = "2" then .ok info
  else if lower = "debug" || lower = "3" then .ok debug
  else .error s!"unknown log level '{lower}'"

/-- A logger of level `limit` passes on events of this level. -/
def isEnabled (l limit : Level) : Bool := l.rank ≤ limit.rank

/-- The less severe of two levels. -/
def max (a b : Level) : Level := if a.rank ≤ b.rank then b else a

end Level
end ChainMapping
