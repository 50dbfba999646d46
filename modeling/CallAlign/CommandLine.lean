import CallAlign.CommandLine.Request
import CallAlign.ConfigFile
import CallAlign.Run

/-!
# The command line

`execute` carries out a command line in a world: a file system, the directories that relative paths
and `~` stand for, and a grammar.  It ends with an exit code and the texts for standard output and
standard error, or with a failure that the program has no message for.

- 0: no offense was found, or calls or help were printed.
- 1: offenses were found.
- 2: the words, the root, the configuration file or the number of workers cannot be used.
-/

namespace CallAlign.CommandLine

/-- What a command line is carried out in.  `details` words the reason in messages about a
configuration file. -/
structure World where
  files : FileSystem
  current : Path
  home : Path
  parse : Parser
  details : ConfigError → String

/-- A failure that ends the program without a message of its own. -/
inductive Failure where
  | run (e : RunError IgnoreError)
  | configFile (e : ConfigError)
  | unknownUser
  | nulInPath
  | linkLoop
  | nameTooLong
  | numberTooLarge
  deriving DecidableEq, Repr

/-- How the program ends. -/
structure Exit where
  code : Nat
  out : String
  err : String
  deriving DecidableEq, Repr

/-- The program gives up with a line on standard error. -/
def Exit.refusal (message : String) : Exit :=
  { code := 2, out := "", err := "error: " ++ message ++ "\n" }

/-! ## Paths -/

/-- A path from the root for a path as it is typed; a leading `~` is the home directory. -/
def World.expand (w : World) (typed : String) : Except Failure Path :=
  let names := Path.ofText typed
  match typed.toList.head? == some '/', names with
  | false, first :: rest =>
    if first = "~" then .ok (w.home ++ rest)
    else if first.toList.head? = some '~' then
      if first.toList.contains '\x00' then .error .nulInPath else .error .unknownUser
    else .ok (w.current ++ names)
  | false, [] => .ok w.current
  | true, _ => .ok names

/-- The real path of a path as it is typed. -/
def World.pathOf (w : World) (typed : String) : Except Failure Path := do
  let path ← w.expand typed
  if typed.toList.contains '\x00' then .error .nulInPath
  else
    let path := w.files.realPath path
    match w.files.locate path with
    | .error .tooManyLinks => .error .linkLoop
    | _ => .ok path

/-! ## Commands -/

/-- The report of a run in the form asked for. -/
def reportText (format : ReportFormat) (result : RunResult) : Except Failure String :=
  match format with
  | .text => .ok result.text
  | .json =>
    match result.json? with
    | some text => .ok text
    | none => .error .numberTooLarge

/-- Inspects a directory or a file that exists, under a configuration that holds. -/
def inspectRoot (w : World) (verbose : Bool) (root : Path) (config : Config)
    (format : Option ReportFormat) (jobs : Option Int) : Except Failure Exit :=
  match runRequested (parseIgnoreFile w.files root) w.parse w.files root (some config) jobs with
  | .error e => .error (.run e)
  | .ok r =>
    match reportText (format.getD config.format) r.result with
    | .error e => .error e
    | .ok out =>
      .ok { code := if r.result.ok then 0 else 1, out, err := LogRecord.printed verbose r.log }

def check (w : World) (verbose : Bool) (root : Path) (format : Option ReportFormat)
    (jobs : Option Int) : Except Failure Exit :=
  match w.files.locate root with
  | .error .nameTooLong => .error .nameTooLong
  | .error _ => .ok (.refusal ("no such file or directory: " ++ root.text))
  | .ok _ =>
    match loadConfig w.files root with
    | .error e =>
      match e.messageFor? w.details w.files root with
      | some message => .ok (.refusal message)
      | none => .error (.configFile e)
    | .ok config =>
      if jobs.any (· < 1) then .ok (.refusal "--jobs must be at least 1")
      else inspectRoot w verbose root config format jobs

/-- What the `calls` command tells about a file before its calls. -/
def callsNotes (verbose : Bool) (file : Path) (source : Source) : String :=
  LogRecord.printed verbose source.log ++
    if source.hasError then "warning: " ++ file.text ++ " contains syntax errors\n" else ""

def calls (w : World) (verbose : Bool) (file : Path) : Except Failure Exit :=
  match w.files.read file with
  | .error e => .ok (.refusal (e.message file))
  | .ok bytes =>
    let source := Source.ofBytes w.parse bytes
    match callLines? (callSites source.root) with
    | none => .error .numberTooLarge
    | some out => .ok { code := 0, out, err := callsNotes verbose file source }

def perform (w : World) (r : Request) : Except Failure Exit :=
  match r.task with
  | .check root format jobs => do check w r.verbose (← w.pathOf root) format jobs
  | .calls file => do calls w r.verbose (← w.pathOf file)

def Answer.exit : Answer → Exit
  | help command => { code := 0, out := command.help, err := "" }
  | usage command e => { code := 2, out := "", err := e.report command }

/-- Carries out a command line. -/
def execute (w : World) (words : List String) : Except Failure Exit :=
  match Request.ofWords words with
  | .ok request => perform w request
  | .error answer => .ok answer.exit

end CallAlign.CommandLine
