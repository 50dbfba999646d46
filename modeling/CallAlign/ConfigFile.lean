import CallAlign.Config
import CallAlign.FileSystem
import CallAlign.Toml.Document
import CallAlign.Utf8

/-!
# The configuration file

A run takes its configuration from a TOML file beside what it inspects.  Without the file the
default configuration holds.
-/

namespace CallAlign

def configFileName : String := "paramalign.toml"

/-- Why a configuration file cannot be used.  The first two errors are about what the file says and
have a message; the others end the program. -/
inductive ConfigError where
  | notToml
  | rejected (reason : Config.Rejection)
  | notUtf8
  | tooManyDigits (count : Nat)
  | unreadable (e : ReadError)
  deriving DecidableEq, Repr

namespace ConfigError

/-- The error as a message about a file, for the errors that have one.  `details` words the part
that follows the name of the file. -/
def message? (details : ConfigError → String) (file : Path) (e : ConfigError) : Option String :=
  match e with
  | notToml => some ("Invalid TOML in " ++ file.text ++ ": " ++ details e)
  | rejected .patternsNotList =>
    some ("Invalid config in " ++ file.text ++ ": " ++ Config.patternsNotListMessage)
  | rejected (.issues _) => some ("Invalid config in " ++ file.text ++ ": " ++ details e)
  | notUtf8 => none
  | tooManyDigits _ => none
  | unreadable _ => none

/-- An issue on one line: the key and what is wrong with its value. -/
def issueLine (issue : Issue) : String :=
  ".".intercalate issue.location ++ ": " ++ issue.fault.message

/-- Details in words. -/
def details : ConfigError → String
  | rejected (.issues issues) => "; ".intercalate (issues.map issueLine)
  | _ => "the text breaks the rules of the language"

end ConfigError

/-- The directory whose configuration holds for a path. -/
def configDirectory (fs : FileSystem) (path : Path) : Except ReadError Path := do
  return if ← fs.isFile path then path.dropLast else path

def configFile (fs : FileSystem) (path : Path) : Except ReadError Path := do
  return (← configDirectory fs path) ++ [configFileName]

/-- The error as a message about the configuration file for a path. -/
def ConfigError.messageFor? (details : ConfigError → String) (fs : FileSystem) (path : Path)
    (e : ConfigError) : Option String :=
  match configFile fs path with
  | .ok file => e.message? details file
  | .error _ => none

/-- The configuration that the bytes of a file write. -/
def Config.ofBytes (bytes : List UInt8) : Except ConfigError Config :=
  match Utf8.decode? bytes with
  | none => .error .notUtf8
  | some text =>
    match Toml.read text with
    | .error .malformed => .error .notToml
    | .error (.tooManyDigits count) => .error (.tooManyDigits count)
    | .ok v =>
      match ofValue v with
      | .ok c => .ok c
      | .error reason => .error (.rejected reason)

/-- The configuration that a file holds, the default one when there is no such file. -/
def Config.ofFile (fs : FileSystem) (file : Path) : Except ConfigError Config :=
  match fs.isFile file with
  | .error e => .error (.unreadable e)
  | .ok false => .ok .default
  | .ok true =>
    match fs.read file with
    | .error e => .error (.unreadable e)
    | .ok bytes => ofBytes bytes

/-- The configuration for a path. -/
def loadConfig (fs : FileSystem) (path : Path) : Except ConfigError Config :=
  match configFile fs path with
  | .error e => .error (.unreadable e)
  | .ok file => Config.ofFile fs file

end CallAlign
