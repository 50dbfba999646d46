import CallAlign.Record

/-!
# Reports

What a run found, as text and as JSON lines.  The text has a line for each offense, a line for each
file that was passed over, and a summary with the counts; the JSON has a record for each offense.
-/

namespace CallAlign

/-- What a run found: offenses, and the files it read and those it could not. -/
structure RunResult where
  offenses : List FileOffense
  inspected : List String
  skipped : List String
  deriving DecidableEq, Repr

namespace RunResult

def empty : RunResult := { offenses := [], inspected := [], skipped := [] }

/-- No offense was found. -/
def ok (r : RunResult) : Bool := r.offenses.isEmpty

end RunResult

/-! ## Text -/

/-- `path:line:column: letter: message`, the column counted from one. -/
def FileOffense.text (o : FileOffense) : String :=
  o.path ++ ":" ++ toString o.line ++ ":" ++ toString (o.column + 1) ++ ": " ++ o.severity.code ++
    ": " ++ o.message

def skippedText (path : String) : String := path ++ ": skipped (unreadable or syntax error)"

/-- A number of things, one of them in the singular. -/
def counted (n : Nat) (thing : String) : String :=
  toString n ++ " " ++ (if n = 1 then thing else thing ++ "s")

def RunResult.summary (r : RunResult) : String :=
  counted r.inspected.length "file" ++ " inspected, " ++ counted r.offenses.length "offense" ++
    " detected"

/-- The text report. -/
def RunResult.text (r : RunResult) : String :=
  "\n".intercalate
    (r.offenses.map FileOffense.text ++ r.skipped.map skippedText ++ [r.summary]) ++ "\n"

/-! ## JSON lines -/

/-- The JSON report; `none` when a position does not fit. -/
def RunResult.json? (r : RunResult) : Option String :=
  jsonLines? (r.offenses.map FileOffense.record)

/-- The offenses in the order of reports; equal ones keep their places. -/
def sortReport (offenses : List FileOffense) : List FileOffense :=
  offenses.mergeSort FileOffense.reportLE

end CallAlign
