import SplitDns.Text.Decimal

/-!
# Log lines
-/

namespace SplitDns

inductive LogLevel where
  | error
  | warn
  | info
  | debug
  | trace
  deriving DecidableEq, Repr, Inhabited

namespace LogLevel

def all : List LogLevel :=
  [error, warn, info, debug, trace]

def name : LogLevel → String
  | error => "ERROR"
  | warn => "WARN"
  | info => "INFO"
  | debug => "DEBUG"
  | trace => "TRACE"

/-- One for errors, five for everything. -/
def number : LogLevel → Nat
  | error => 1
  | warn => 2
  | info => 3
  | debug => 4
  | trace => 5

/-- A level by its name, in letters of any case, or by its number. -/
def parse? (t : Text) : Option LogLevel :=
  all.find? fun l =>
    Text.upper t == l.name.toList || Decimal.readAlone? 5 t == some l.number

end LogLevel

structure LogLine where
  level : LogLevel
  message : String
  deriving DecidableEq, Repr, Inhabited

namespace LogLine

/-- The lines that a log of a level shows. -/
def shown (level : LogLevel) (lines : List LogLine) : List LogLine :=
  lines.filter (·.level.number ≤ level.number)

end LogLine

end SplitDns
