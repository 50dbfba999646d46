import CallAlign.Alignment
import CallAlign.FileSystem
import CallAlign.Log

/-!
# Inspection of one file

A file that can be read and parses cleanly is checked; any other is reported with the reason and no
offenses.
-/

namespace CallAlign

/-- What became of a file.  The calls that tabs exempt are kept for the log. -/
inductive Outcome where
  | unreadable (reason : String)
  | malformed (e : ParseError)
  | inspected (offenses : List Offense) (exempt : List Call)
  deriving DecidableEq, Repr

/-- A file by the name it has in reports, and what became of it. -/
structure FileReport where
  path : String
  outcome : Outcome
  deriving DecidableEq, Repr

/-- What becomes of a source, which is parsed strictly. -/
def Source.outcome (source : Source) : Outcome :=
  match source.strict with
  | .error e => .malformed e
  | .ok source =>
    .inspected (inspect source.root source.lines) (tabExempt source.root source.lines)

/-- Inspects the file at a path under the name `name`. -/
def inspectFile (parse : Parser) (fs : FileSystem) (file : Path) (name : String) : FileReport :=
  match fs.read file with
  | .error e => { path := name, outcome := .unreadable (e.message file) }
  | .ok bytes => { path := name, outcome := (Source.ofBytes parse bytes).outcome }

namespace FileReport

/-- The reason for which a file was passed over. -/
def error? (r : FileReport) : Option String :=
  match r.outcome with
  | .unreadable reason => some reason
  | .malformed e => some e.message
  | .inspected _ _ => none

def offenses (r : FileReport) : List FileOffense :=
  match r.outcome with
  | .inspected offenses _ => offenses.map (.ofOffense r.path copName)
  | _ => []

/-! ## Log -/

def exemptRecord (call : Call) : LogRecord :=
  { level := .debug
    logger := "cops.align_parameters"
    message := "Skipping " ++ call.methodName ++ " at " ++ call.calleeStart.text ++
      ": tab indentation" }

def inspectedRecord (path : String) (count : Nat) : LogRecord :=
  { level := .debug
    logger := "cops.runner"
    message := "Inspected " ++ path ++ ": " ++ toString count ++ " offense(s)" }

def log (r : FileReport) : List LogRecord :=
  match r.outcome with
  | .unreadable reason =>
    [{ level := .warning, logger := "cops.runner",
       message := "Cannot read " ++ r.path ++ ": " ++ reason }]
  | .malformed e =>
    [{ level := .warning, logger := "cops.runner",
       message := "Skipping " ++ r.path ++ ": " ++ e.message }]
  | .inspected offenses exempt =>
    exempt.map exemptRecord ++ [inspectedRecord r.path offenses.length]

end FileReport

end CallAlign
