import CallAlign.CommandLine.Usage
import CallAlign.Config

/-!
# Requests

What a command line asks the program to do.  `Request.ofWords` reads the words in their order: help
is given as soon as it is asked for, and the first fault ends the reading.
-/

namespace CallAlign.CommandLine

/-- A task for the program. -/
inductive Task where
  | check (root : String) (format : Option ReportFormat) (jobs : Option Int)
  | calls (file : String)
  deriving DecidableEq, Repr

structure Request where
  verbose : Bool
  task : Task
  deriving DecidableEq, Repr

/-- A command line that asks for no task. -/
inductive Answer where
  | help (command : Command)
  | usage (command : Command) (error : UsageError)
  deriving DecidableEq, Repr

/-! ## The options of the commands -/

inductive ProgramOption where
  | help
  | verbose
  deriving DecidableEq, Repr

inductive CheckOption where
  | help
  | format
  | jobs
  deriving DecidableEq, Repr

def programOptions : OptionTable ProgramOption :=
  { names := [("-h", .help), ("--help", .help), ("-v", .verbose), ("--verbose", .verbose)]
    takesValue := fun _ => false }

def checkOptions : OptionTable CheckOption :=
  { names := [("-h", .help), ("--help", .help), ("--format", .format), ("--jobs", .jobs)]
    takesValue := fun option => option != .help }

/-- The command that prints calls has help as its only option. -/
def callsOptions : OptionTable Unit :=
  { names := [("-h", ()), ("--help", ())], takesValue := fun _ => false }

/-- The events of a command's words; an ambiguous word is found before anything is done. -/
def eventsOf {α : Type} [DecidableEq α] (table : OptionTable α) (wanted : Wanted)
    (words : List String) : List (Event α) :=
  match table.tokens words with
  | .ok tokens => table.events (some wanted) tokens
  | .error e => [.fault e]

/-! ## Reading the commands -/

/-- What a command has been told so far, and the words it has no use for. -/
structure Reading (σ : Type) where
  settings : σ
  extras : List String

structure CheckSettings where
  root : String
  format : Option ReportFormat
  jobs : Option Int

def checkStep (r : Reading CheckSettings) : Event CheckOption → Except Answer (Reading CheckSettings)
  | .flag _ => .error (.help .check)
  | .setting .help _ => .error (.help .check)
  | .setting .format value =>
    match ReportFormat.ofName? value with
    | some f => .ok { r with settings := { r.settings with format := some f } }
    | none =>
      .error (.usage .check (.badChoice "--format" value (ReportFormat.all.map ReportFormat.name)))
  | .setting .jobs value =>
    match Text.int? value.toList with
    | some n => .ok { r with settings := { r.settings with jobs := some n } }
    | none => .error (.usage .check (.badInteger "--jobs" value))
  | .argument value => .ok { r with settings := { r.settings with root := value } }
  | .remaining words => .ok { r with extras := r.extras ++ words }
  | .extra word => .ok { r with extras := r.extras ++ [word] }
  | .fault e => .error (.usage .check e)

/-- The task of the `check` command, and the words it has no use for. -/
def readCheck (words : List String) : Except Answer (Task × List String) := do
  let start : Reading CheckSettings :=
    { settings := { root := ".", format := none, jobs := none }, extras := [] }
  let r ← (eventsOf checkOptions .atMostOne words).foldlM checkStep start
  return (.check r.settings.root r.settings.format r.settings.jobs, r.extras)

def callsStep (r : Reading String) : Event Unit → Except Answer (Reading String)
  | .flag _ => .error (.help .calls)
  | .setting _ _ => .error (.help .calls)
  | .argument value => .ok { r with settings := value }
  | .remaining words => .ok { r with extras := r.extras ++ words }
  | .extra word => .ok { r with extras := r.extras ++ [word] }
  | .fault e => .error (.usage .calls e)

/-- The task of the `calls` command, and the words it has no use for. -/
def readCalls (words : List String) : Except Answer (Task × List String) := do
  let r ← (eventsOf callsOptions (.one "file") words).foldlM callsStep { settings := "", extras := [] }
  return (.calls r.settings, r.extras)

/-- The task of a command by its name. -/
def readCommand : List String → Except Answer (Task × List String)
  | "check" :: words => readCheck words
  | "calls" :: words => readCalls words
  | words => .error (.usage .program (.badChoice "command" (words.headD "") ["check", "calls"]))

/-- The options before the command, the command's task, and the words nobody has a use for. -/
structure ProgramSettings where
  verbose : Bool
  task : Option Task

def programStep (r : Reading ProgramSettings) :
    Event ProgramOption → Except Answer (Reading ProgramSettings)
  | .flag .help => .error (.help .program)
  | .flag .verbose => .ok { r with settings := { r.settings with verbose := true } }
  | .setting _ _ => .ok r
  | .argument value => .ok { r with extras := r.extras ++ [value] }
  | .remaining words => do
    let (task, extras) ← readCommand words
    return { settings := { r.settings with task := some task }, extras := r.extras ++ extras }
  | .extra word => .ok { r with extras := r.extras ++ [word] }
  | .fault e => .error (.usage .program e)

/-- The request that the words of a command line make. -/
def Request.ofWords (words : List String) : Except Answer Request := do
  let start : Reading ProgramSettings :=
    { settings := { verbose := false, task := none }, extras := [] }
  let r ← (eventsOf programOptions (.rest "command") words).foldlM programStep start
  match r.settings.task, r.extras with
  | none, _ => .error (.usage .program (.missingArgument "command"))
  | some task, [] => return { verbose := r.settings.verbose, task }
  | some _, extras => .error (.usage .program (.unrecognized extras))

end CallAlign.CommandLine
