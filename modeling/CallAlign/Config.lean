import CallAlign.Text.Blank
import CallAlign.Validation

/-!
# Configuration

What a run is told: whether the check is on, which files it takes, whether nested ignore files
count, the form of the report and the number of worker processes.  `Config.ofValue` reads a
configuration off an untyped value; every key is optional and no other key is allowed.
-/

namespace CallAlign

/-- The form of a report. -/
inductive ReportFormat where
  | text
  | json
  deriving DecidableEq, Repr

namespace ReportFormat

def name : ReportFormat → String
  | text => "text"
  | json => "json"

def all : List ReportFormat := [text, json]

def ofName? (s : String) : Option ReportFormat := all.find? (·.name == s)

end ReportFormat

structure Config where
  enabled : Bool
  includes : List String
  excludes : List String
  nestedGitignore : Bool
  format : ReportFormat
  jobs : Int
  deriving DecidableEq, Repr

/-- The files taken unless the configuration says otherwise. -/
def defaultIncludes : List String :=
  ["*.rb", "*.rake", "*.gemspec", "*.ru", "Rakefile", "*/Rakefile", "Gemfile", "*/Gemfile"]

namespace Config

def default : Config :=
  { enabled := true, includes := defaultIncludes, excludes := [], nestedGitignore := false,
    format := .text, jobs := 1 }

def keys : List String := ["enabled", "include", "exclude", "nested_gitignore", "format", "jobs"]

/-- Why a value is no configuration: the issues of its fields, or a pattern list that is no list,
which hides them. -/
inductive Rejection where
  | issues (issues : List Issue)
  | patternsNotList
  deriving DecidableEq, Repr

def patternsNotListMessage : String := "patterns must be a list of glob strings"

/-! ## Pattern lists -/

/-- The entries of a pattern list; null is the empty list. -/
def patternItems? : Value → Option (List Value)
  | .null => some []
  | .list items => some items
  | _ => none

/-- A pattern is a text that is not blank. -/
def readPattern : Value → Except Fault String
  | .str s => if Text.allBlank s.toList then .error (.badPattern (Text.quoted s)) else .ok s
  | v => .error (if v.isWritable then .badPattern v.text else .longPattern)

/-- The patterns of a list; the first entry that is none is the fault. -/
def readPatterns : List Value → Except Fault (List String)
  | [] => .ok []
  | v :: vs =>
    match readPattern v with
    | .error fault => .error fault
    | .ok p =>
      match readPatterns vs with
      | .error fault => .error fault
      | .ok ps => .ok (p :: ps)

/-- A pattern field; `none` when it holds no list. -/
def patternField? (entries : List (String × Value)) (key : String) (absent : List String) :
    Option (Except Issue (List String)) :=
  match entries.lookup key with
  | none => some (.ok absent)
  | some v =>
    (patternItems? v).map fun items =>
      match readPatterns items with
      | .ok ps => .ok ps
      | .error fault => .error { location := [key], fault }

/-! ## Reading a configuration -/

/-- The issues of keys that are not known, in their order. -/
def unknownKeys (entries : List (String × Value)) : List Issue :=
  (entries.filter fun entry => !keys.contains entry.1).map fun entry =>
    { location := [entry.1], fault := .unknownKey }

def ofEntries (entries : List (String × Value)) : Except Rejection Config :=
  match patternField? entries "include" default.includes,
      patternField? entries "exclude" default.excludes with
  | some includes, some excludes =>
    let enabled := readField entries "enabled" Value.toBool (.ok default.enabled)
    let nested := readField entries "nested_gitignore" Value.toBool (.ok default.nestedGitignore)
    let format :=
      readField entries "format" (Value.toChoice ReportFormat.all ReportFormat.name)
        (.ok default.format)
    let jobs := readField entries "jobs" (Value.toIntFrom 1) (.ok default.jobs)
    let unknown := unknownKeys entries
    match enabled, includes, excludes, nested, format, jobs, unknown with
    | .ok enabled, .ok includes, .ok excludes, .ok nestedGitignore, .ok format, .ok jobs, [] =>
      .ok { enabled, includes, excludes, nestedGitignore, format, jobs }
    | _, _, _, _, _, _, _ =>
      .error (.issues (issueOf enabled ++ issueOf includes ++ issueOf excludes ++
        issueOf nested ++ issueOf format ++ issueOf jobs ++ unknown))
  | _, _ => .error .patternsNotList

def ofValue : Value → Except Rejection Config
  | .table entries => ofEntries entries
  | _ => .error (.issues [{ location := [], fault := .notTable }])

/-- The configuration written out with all its keys. -/
def toValue (c : Config) : Value :=
  .table [
    ("enabled", .bool c.enabled),
    ("include", .list (c.includes.map .str)),
    ("exclude", .list (c.excludes.map .str)),
    ("nested_gitignore", .bool c.nestedGitignore),
    ("format", .str c.format.name),
    ("jobs", .int c.jobs)]

end Config

end CallAlign
