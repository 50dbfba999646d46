import CallAlign.Text.Digit

/-!
# Options and arguments

How a list of words is taken apart into options, positional arguments and words that belong to
nothing.  A word that begins with a hyphen is an option, by its name, by an unambiguous beginning of
a long name, or as several letters in one word; `--` makes all words after it plain.

`OptionTable.tokens` gives each word its role, and `OptionTable.events` what the words ask for, in
their order.
-/

namespace CallAlign.CommandLine

/-! ## Tables of options -/

/-- The spellings of some options in order, and which options take a value. -/
structure OptionTable (α : Type) where
  names : List (String × α)
  takesValue : α → Bool

/-- What is wrong with the words of a command line. -/
inductive UsageError where
  | ambiguous (word : String) (candidates : List String)
  | unwantedValue (option value : String)
  | missingValue (option : String)
  | badChoice (argument value : String) (choices : List String)
  | badInteger (argument value : String)
  | missingArgument (argument : String)
  | unrecognized (words : List String)
  deriving DecidableEq, Repr

namespace OptionTable

variable {α : Type} [DecidableEq α] (t : OptionTable α)

def find? (name : List Char) : Option α := t.names.lookup (String.ofList name)

/-- An option as messages name it: its spellings with slashes between them. -/
def label (option : α) : String :=
  "/".intercalate ((t.names.filter (·.2 = option)).map (·.1))

end OptionTable

/-! ## Words -/

/-- A value written in the word of its option; `joined` is whether an equals sign stands between
them. -/
structure Attached where
  joined : Bool
  value : List Char
  deriving DecidableEq, Repr

/-- A word by its role. -/
inductive Token (α : Type) where
  | plain (word : String)
  | separator
  | option (option : α) (isLong : Bool) (attached : Option Attached) (word : String)
  | unknown (word : String)
  deriving DecidableEq, Repr

def Token.word {α : Type} : Token α → String
  | plain w => w
  | separator => "--"
  | option _ _ _ w => w
  | unknown w => w

/-- Negative numbers are no options. -/
def isNegativeNumber (cs : List Char) : Bool :=
  let isDigit (c : Char) : Bool := (Text.digit? c).isSome
  match cs with
  | '-' :: body =>
    let body := if body.getLast? = some '\n' then body.dropLast else body
    let whole := body.takeWhile isDigit
    match body.drop whole.length with
    | [] => !whole.isEmpty
    | '.' :: fraction => !fraction.isEmpty && fraction.all isDigit
    | _ => false
  | _ => false

namespace OptionTable

variable {α : Type} [DecidableEq α] (t : OptionTable α)

/-- The part before an equals sign, and the value behind it. -/
def splitValue (cs : List Char) : List Char × Option Attached :=
  let name := cs.takeWhile (· != '=')
  match cs.drop name.length with
  | _ :: value => (name, some { joined := true, value })
  | [] => (name, none)

/-- The options that a word may shorten: a long name by its beginning, or the first of several
letters. -/
def candidates (cs : List Char) : List (String × Token α) :=
  let word := String.ofList cs
  match cs with
  | '-' :: '-' :: _ =>
    let (start, attached) := splitValue cs
    (t.names.filter fun entry => start.isPrefixOf entry.1.toList).map fun entry =>
      (entry.1, .option entry.2 true attached word)
  | _ =>
    (t.names.filter (·.1 == String.ofList (cs.take 2))).map fun entry =>
      (entry.1, .option entry.2 false (some { joined := false, value := cs.drop 2 }) word)

/-- The role of a word that is not the separator. -/
def tokenOf (word : String) : Except UsageError (Token α) :=
  let cs := word.toList
  let isLong := ['-', '-'].isPrefixOf cs
  if cs.head? != some '-' then .ok (.plain word)
  else
    match t.find? cs with
    | some option => .ok (.option option isLong none word)
    | none =>
      if cs.length = 1 then .ok (.plain word)
      else
        let (name, attached) := splitValue cs
        match attached, t.find? name with
        | some value, some option => .ok (.option option isLong (some value) word)
        | _, _ =>
          match t.candidates cs with
          | [] =>
            if isNegativeNumber cs || cs.contains ' ' then .ok (.plain word)
            else .ok (.unknown word)
          | [candidate] => .ok candidate.2
          | several => .error (.ambiguous word (several.map (·.1)))

/-- The roles of all words. -/
def tokens : List String → Except UsageError (List (Token α))
  | [] => .ok []
  | "--" :: rest => .ok (.separator :: rest.map .plain)
  | word :: rest => do
    let token ← t.tokenOf word
    return token :: (← tokens rest)

end OptionTable

/-! ## Events -/

/-- One thing that a command line asks for. -/
inductive Event (α : Type) where
  | flag (option : α)
  | setting (option : α) (value : String)
  | argument (value : String)
  | remaining (words : List String)
  | extra (word : String)
  | fault (error : UsageError)
  deriving DecidableEq, Repr

/-- The positional arguments that a command may still get: one that may be absent, one that must be
there, or a word and all that follow it. -/
inductive Wanted where
  | atMostOne
  | one (name : String)
  | rest (name : String)
  deriving DecidableEq, Repr

/-- The options in one word, and the last one if it needs the next word as its value. -/
structure Spelled (α : Type) where
  events : List (Event α)
  pending : Option α

namespace OptionTable

variable {α : Type} [DecidableEq α] (t : OptionTable α)

/-- The options of the letters that follow an option in its word.  Options that take no value may
follow each other; a letter that is no option makes the rest an extra word. -/
def letters (previous : α) (joined : Bool) : List Char → Except UsageError (Spelled α)
  | [] => .ok { events := [.flag previous], pending := none }
  | c :: cs =>
    if t.takesValue previous then
      .ok { events := [.setting previous (String.ofList (c :: cs))], pending := none }
    else if joined || c = '-' then
      .error (.unwantedValue (t.label previous) (String.ofList (c :: cs)))
    else
      match t.find? ['-', c] with
      | none =>
        .ok { events := [.flag previous, .extra (String.ofList ('-' :: c :: cs))], pending := none }
      | some next =>
        match cs with
        | [] =>
          if t.takesValue next then .ok { events := [.flag previous], pending := some next }
          else .ok { events := [.flag previous, .flag next], pending := none }
        | ['='] =>
          if t.takesValue next then
            .ok { events := [.flag previous, .setting next ""], pending := none }
          else .error (.unwantedValue (t.label next) "")
        | '=' :: d :: value => do
          let more ← letters next true (d :: value)
          return { more with events := .flag previous :: more.events }
        | d :: rest => do
          let more ← letters next false (d :: rest)
          return { more with events := .flag previous :: more.events }

/-- The options in one word. -/
def spelled (option : α) (isLong : Bool) (attached : Option Attached) :
    Except UsageError (Spelled α) :=
  match attached with
  | none =>
    if t.takesValue option then .ok { events := [], pending := some option }
    else .ok { events := [.flag option], pending := none }
  | some a =>
    if t.takesValue option then
      .ok { events := [.setting option (String.ofList a.value)], pending := none }
    else if isLong || a.value.isEmpty then
      .error (.unwantedValue (t.label option) (String.ofList a.value))
    else t.letters option a.joined a.value

/-- What some words ask for.  It ends at the first fault; a missing argument is found at the end. -/
def events : Option Wanted → List (Token α) → List (Event α)
  | some (.one name), [] => [.fault (.missingArgument name)]
  | some (.rest name), [] => [.fault (.missingArgument name)]
  | _, [] => []
  | wanted, .option option isLong attached _ :: rest =>
    match t.spelled option isLong attached, rest with
    | .error e, _ => [.fault e]
    | .ok { events := first, pending := none }, rest => first ++ events wanted rest
    | .ok { events := first, pending := some last }, .plain value :: rest =>
      first ++ .setting last value :: events wanted rest
    | .ok { events := _, pending := some last }, _ => [.fault (.missingValue (t.label last))]
  | wanted, .unknown word :: rest => .extra word :: events wanted rest
  | none, token :: rest => .extra token.word :: events none rest
  | some (.rest name), [.separator] => [.extra "--", .fault (.missingArgument name)]
  | some (.rest _), tokens => [.remaining (tokens.map Token.word)]
  | some _, .plain value :: .separator :: rest => .argument value :: events none rest
  | some _, .separator :: .plain value :: rest => .argument value :: events none rest
  | some _, .plain value :: rest => .argument value :: events none rest
  | some (.one name), .separator :: _ => [.extra "--", .fault (.missingArgument name)]
  | some .atMostOne, .separator :: rest => events none rest

end OptionTable

end CallAlign.CommandLine
