/-!
# Log records

What a run reports on its way. A record belongs to a part of the program, and a sink shows the
records that are at least as severe as its level.
-/

namespace PropCatalog

inductive Level where
  | debug
  | info
  | warning
  | error
  | critical
  deriving DecidableEq, Repr

namespace Level

def name : Level → String
  | debug => "DEBUG"
  | info => "INFO"
  | warning => "WARNING"
  | error => "ERROR"
  | critical => "CRITICAL"

/-- The severity of a level. -/
def rank : Level → Nat
  | debug => 10
  | info => 20
  | warning => 30
  | error => 40
  | critical => 50

end Level

/-- The part of the program that writes a record; the empty name is the program as a whole. -/
structure Channel where
  name : String
  deriving DecidableEq, Repr

/-- The full name of a channel. -/
def Channel.fullName (c : Channel) : String :=
  if c.name == "" then "docspark" else "docspark." ++ c.name

structure LogRecord where
  level : Level
  channel : Channel
  message : String
  deriving DecidableEq, Repr

namespace LogRecord

/-- Level, channel and message on one line. -/
def line (r : LogRecord) : String :=
  r.level.name ++ " " ++ r.channel.fullName ++ ": " ++ r.message

/-- The line shown on a console. -/
def consoleLine (r : LogRecord) : String :=
  "[docspark] " ++ r.level.name ++ " " ++ r.message

/-- The records from a level on, as a console shows them. -/
def console (level : Level) (records : List LogRecord) : String :=
  String.join <| (records.filter fun r => level.rank ≤ r.level.rank).map fun r =>
    r.consoleLine ++ "\n"

end LogRecord

/-- The least severe records that a run shows. -/
def Level.shown (verbose : Bool) : Level :=
  if verbose then .debug else .info

end PropCatalog
