/-!
# Log records

What a run tells about its work, beside its results.  Records are data; which of them are printed
is decided where they are printed.
-/

namespace CallAlign

inductive LogLevel where
  | debug
  | info
  | warning
  deriving DecidableEq, Repr

def LogLevel.name : LogLevel → String
  | debug => "DEBUG"
  | info => "INFO"
  | warning => "WARNING"

/-- A message and the part of the program that logs it. -/
structure LogRecord where
  level : LogLevel
  logger : String
  message : String
  deriving DecidableEq, Repr

namespace LogRecord

def text (r : LogRecord) : String := r.level.name ++ " " ++ r.logger ++ ": " ++ r.message

/-- The record is printed: a warning always, the others on demand. -/
def isShown (verbose : Bool) (r : LogRecord) : Bool := verbose || r.level == .warning

/-- The records that are printed, a line each. -/
def printed (verbose : Bool) (records : List LogRecord) : String :=
  String.join ((records.filter (·.isShown verbose)).map fun r => r.text ++ "\n")

end LogRecord

end CallAlign
