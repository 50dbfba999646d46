import CallAlign.Alignment
import CallAlign.Json

/-!
# Positions, calls and offenses as records

`Call.summary` is the record of a call that the `calls` command prints: what the alignment check
reads of a call, and nothing else of it.  `Call.record` holds the whole call.
-/

namespace CallAlign

def Position.record (p : Position) : Json :=
  .obj [("line", .int p.line), ("column", .int p.column)]

def Span.record (s : Span) : Json :=
  .obj [("start", s.start.record), ("end", s.stop.record)]

def Argument.record (a : Argument) : Json :=
  .obj [("kind", .str a.kind.name), ("start", a.start.record), ("end", a.stop.record)]

/-- A call with all it holds. -/
def Call.record (c : Call) : Json :=
  .obj [
    ("method_name", .str c.methodName),
    ("callee_start", c.calleeStart.record),
    ("span", c.span.record),
    ("uses_explicit_parens", .bool c.usesParens),
    ("open_paren", c.openParen.elim .null Position.record),
    ("arguments", .arr (c.arguments.map Argument.record))]

def Argument.summary (a : Argument) : Json :=
  .obj [
    ("kind", .str a.kind.name),
    ("line", .int a.start.line),
    ("column", .int a.start.column),
    ("end_line", .int a.stop.line),
    ("end_column", .int a.stop.column)]

/-- A call as the `calls` command prints it. -/
def Call.summary (c : Call) : Json :=
  .obj [
    ("method", .str c.methodName),
    ("line", .int c.calleeStart.line),
    ("column", .int c.calleeStart.column),
    ("parens", .bool c.usesParens),
    ("arguments", .arr (c.arguments.map Argument.summary))]

/-- The calls of a file, one line each. -/
def callLines? (calls : List Call) : Option String := jsonLines? (calls.map Call.summary)

def Offense.record (o : Offense) : Json :=
  .obj [
    ("severity", .str o.severity.name),
    ("message", .str o.message),
    ("line", .int o.line),
    ("column", .int o.column)]

def FileOffense.record (o : FileOffense) : Json :=
  .obj [
    ("path", .str o.path),
    ("cop_name", .str o.cop),
    ("severity", .str o.severity.name),
    ("line", .int o.line),
    ("column", .int o.column),
    ("message", .str o.message)]

end CallAlign
