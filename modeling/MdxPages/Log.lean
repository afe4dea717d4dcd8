/-!
# Log — records of a run, kept as data

A run yields its records in order; what becomes of them (which levels are shown, where, in which
format) is decided by whoever holds the list.
-/

namespace MdxPages

/-- The severity of a record. -/
inductive Level
  | debug
  | info
  | warning
  | error
  | critical
deriving DecidableEq, Repr, Inhabited

/-- The number of a level. -/
def Level.number : Level → Nat
  | debug => 10
  | info => 20
  | warning => 30
  | error => 40
  | critical => 50

/-- The name of a level. -/
def Level.name : Level → String
  | debug => "DEBUG"
  | info => "INFO"
  | warning => "WARNING"
  | error => "ERROR"
  | critical => "CRITICAL"

/-- A record: its severity, the logger that made it, and its text. -/
structure LogEntry where
  level : Level
  logger : String
  message : String
deriving DecidableEq, Repr, Inhabited

end MdxPages
