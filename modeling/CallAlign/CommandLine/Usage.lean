import CallAlign.CommandLine.Options
import CallAlign.Text.Quoted

/-!
# Usage, help and usage errors

The texts that describe the command line.  A usage error shows the usage of the command that found
it, then the error.
-/

namespace CallAlign.CommandLine

/-- The program as a whole, and its two commands. -/
inductive Command where
  | program
  | check
  | calls
  deriving DecidableEq, Repr

namespace Command

/-- The command as its messages name it. -/
def title : Command → String
  | program => "paramalign"
  | check => "paramalign check"
  | calls => "paramalign calls"

def usage : Command → String
  | program => "usage: paramalign [-h] [-v] \x7bcheck,calls\x7d ...\n"
  | check =>
    "usage: paramalign check [-h] [--format \x7btext,json\x7d] [--jobs JOBS] [root]\n"
  | calls => "usage: paramalign calls [-h] file\n"

/-- What follows the usage in a help text. -/
def explanation : Command → List String
  | program => [
    "",
    "positional arguments:",
    "  \x7bcheck,calls\x7d",
    "    check        Check alignment of multi-line call parameters",
    "    calls        Print the call sites extracted from a Ruby file",
    "",
    "options:",
    "  -h, --help     show this help message and exit",
    "  -v, --verbose  Enable debug logging"]
  | check => [
    "",
    "positional arguments:",
    "  root                  Directory or Ruby file to inspect (default: .)",
    "",
    "options:",
    "  -h, --help            show this help message and exit",
    "  --format \x7btext,json\x7d  Report format (default: config format)",
    "  --jobs JOBS           Worker processes (default: config jobs)"]
  | calls => [
    "",
    "positional arguments:",
    "  file        Ruby source file",
    "",
    "options:",
    "  -h, --help  show this help message and exit"]

def help (c : Command) : String :=
  c.usage ++ String.join (c.explanation.map (· ++ "\n"))

end Command

namespace UsageError

def aboutArgument (argument problem : String) : String := "argument " ++ argument ++ ": " ++ problem

def message : UsageError → String
  | ambiguous word candidates =>
    "ambiguous option: " ++ word ++ " could match " ++ Text.listed candidates
  | unwantedValue option value =>
    aboutArgument option ("ignored explicit argument " ++ Text.quoted value)
  | missingValue option => aboutArgument option "expected one argument"
  | badChoice argument value choices =>
    aboutArgument argument ("invalid choice: " ++ Text.quoted value ++ " (choose from " ++
      Text.listed (choices.map Text.quoted) ++ ")")
  | badInteger argument value =>
    aboutArgument argument ("invalid int value: " ++ Text.quoted value)
  | missingArgument argument => "the following arguments are required: " ++ argument
  | unrecognized words => "unrecognized arguments: " ++ " ".intercalate words

/-- The error as the command that found it prints it. -/
def report (e : UsageError) (c : Command) : String :=
  c.usage ++ c.title ++ ": error: " ++ e.message ++ "\n"

end UsageError

end CallAlign.CommandLine
