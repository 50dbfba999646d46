import CallAlign.Offense
import CallAlign.Validation

/-!
# Offenses from untyped fields

An offense given as a table.  Its severity is a convention when none is given; all other fields are
required, and keys that are not known are passed over.  The issues come in the order of the fields.
-/

namespace CallAlign

def readSeverity (v : Value) : Except Fault Severity :=
  v.toChoice Severity.all Severity.name

def Offense.ofFields (entries : List (String × Value)) : Except (List Issue) Offense :=
  let severity := readField entries "severity" readSeverity (.ok .convention)
  let message := readField entries "message" Value.toText (.error .missing)
  let line := readField entries "line" Value.toInt (.error .missing)
  let column := readField entries "column" Value.toInt (.error .missing)
  match severity, message, line, column with
  | .ok severity, .ok message, .ok line, .ok column => .ok { severity, message, line, column }
  | _, _, _, _ =>
    .error (issueOf severity ++ issueOf message ++ issueOf line ++ issueOf column)

def FileOffense.ofFields (entries : List (String × Value)) : Except (List Issue) FileOffense :=
  let path := readField entries "path" Value.toText (.error .missing)
  let cop := readField entries "cop_name" Value.toText (.error .missing)
  let severity := readField entries "severity" readSeverity (.error .missing)
  let line := readField entries "line" Value.toInt (.error .missing)
  let column := readField entries "column" Value.toInt (.error .missing)
  let message := readField entries "message" Value.toText (.error .missing)
  match path, cop, severity, line, column, message with
  | .ok path, .ok cop, .ok severity, .ok line, .ok column, .ok message =>
    .ok { path, cop, severity, line, column, message }
  | _, _, _, _, _, _ =>
    .error (issueOf path ++ issueOf cop ++ issueOf severity ++ issueOf line ++ issueOf column ++
      issueOf message)

end CallAlign
