import CallAlign.Text.Digit
import CallAlign.Value

/-!
# Strings, numbers and moments of TOML 1.0

Each reader takes the characters from where its value begins and gives the value with the
characters behind it, or `none` when no such value begins there.  A decimal integer may also have
too many digits, which ends the reading of the whole text: a reader that can meet one says which
`Failure` it is.
-/

namespace CallAlign.Toml

/-! ## Failures -/

/-- Why a text cannot be read: it is no TOML, or a decimal integer in it has more digits than an
integer may be written with. -/
inductive Failure where
  | malformed
  | tooManyDigits (count : Nat)
  deriving DecidableEq, Repr

/-- What has to be there. -/
def orMalformed {α : Type} : Option α → Except Failure α
  | some a => .ok a
  | none => .error .malformed

/-! ## Characters -/

def isControl (c : Char) : Bool := c.toNat < 0x20 || c.toNat == 0x7F

/-- Not allowed in a comment or in a string on one line. -/
def illegalInLine (c : Char) : Bool := isControl c && c != '\t'

/-- Not allowed in a string over several lines. -/
def illegalInText (c : Char) : Bool := illegalInLine c && c != '\n'

def isSpace (c : Char) : Bool := c == ' ' || c == '\t'

def isBareKeyChar (c : Char) : Bool := c.isAlphanum || c == '-' || c == '_'

def skipSpaces (cs : List Char) : List Char := cs.dropWhile isSpace

/-- The line feed that may follow the opening quotes of a string over several lines. -/
def skipLineFeed : List Char → List Char
  | '\n' :: cs => cs
  | cs => cs

/-! ## Literal strings -/

/-- A character put in front of what was read after it. -/
def cons? (c : Char) (read : Option (List Char × List Char)) : Option (List Char × List Char) :=
  read.map fun r => (c :: r.1, r.2)

/-- A string on one line without escapes, after its opening quote. -/
def literal? (cs : List Char) : Option (List Char × List Char) :=
  let body := cs.takeWhile (· != '\'')
  match cs.drop body.length with
  | '\'' :: rest => if body.any illegalInLine then none else some (body, rest)
  | _ => none

/-- The text up to the first three quotes in a row, and what follows them. -/
def splitAtQuotes? (quote : Char) : List Char → Option (List Char × List Char)
  | [] => none
  | c :: cs =>
    if (c :: cs).take 3 = [quote, quote, quote] then some ([], cs.drop 2)
    else cons? c (splitAtQuotes? quote cs)

/-- Up to two quotes before the closing ones belong to the string. -/
def extraQuotes (quote : Char) (body cs : List Char) : List Char × List Char :=
  match cs with
  | a :: b :: rest =>
    if a = quote then
      if b = quote then (body ++ [quote, quote], rest) else (body ++ [quote], b :: rest)
    else (body, cs)
  | [a] => if a = quote then (body ++ [quote], []) else (body, cs)
  | [] => (body, cs)

/-- A string over several lines without escapes, after its opening quotes. -/
def longLiteral? (cs : List Char) : Option (List Char × List Char) := do
  let (body, rest) ← splitAtQuotes? '\'' (skipLineFeed cs)
  if body.any illegalInText then none else some (extraQuotes '\'' body rest)

/-! ## Strings with escapes -/

/-- Where a string with escapes stands: in its text, after a backslash that ends a line but for
spaces, or in the blanks that such a backslash joins. -/
inductive Place where
  | text
  | lineEnd
  | joined
  deriving DecidableEq

/-- A character by its code point, which must be a Unicode scalar value. -/
def scalar? (hex : List Char) : Option Char :=
  if hex.all Text.isHexDigit then
    let n := Text.numberIn 16 hex
    if h : n.isValidChar then some (Char.ofNatAux n h) else none
  else none

def simpleEscape? : Char → Option Char
  | 'b' => some '\x08'
  | 't' => some '\t'
  | 'n' => some '\n'
  | 'f' => some '\x0c'
  | 'r' => some '\r'
  | '"' => some '"'
  | '\\' => some '\\'
  | _ => none

/-- A string with escapes, after its opening quote or quotes.  `long` is whether it runs over
several lines and ends with three quotes. -/
def basic? (long : Bool) (place : Place) : List Char → Option (List Char × List Char)
  | [] => none
  | c :: cs =>
    if place = .lineEnd then
      if isSpace c then basic? long .lineEnd cs
      else if c = '\n' then basic? long .joined cs
      else none
    else if place = .joined && (isSpace c || c = '\n') then basic? long .joined cs
    else if c = '"' then
      if !long then some ([], cs)
      else
        match cs with
        | '"' :: '"' :: rest => some ([], rest)
        | _ => cons? '"' (basic? long .text cs)
    else if c = '\\' then
      match cs with
      | 'u' :: h₁ :: h₂ :: h₃ :: h₄ :: rest =>
        match scalar? [h₁, h₂, h₃, h₄] with
        | some d => cons? d (basic? long .text rest)
        | none => none
      | 'U' :: h₁ :: h₂ :: h₃ :: h₄ :: h₅ :: h₆ :: h₇ :: h₈ :: rest =>
        match scalar? [h₁, h₂, h₃, h₄, h₅, h₆, h₇, h₈] with
        | some d => cons? d (basic? long .text rest)
        | none => none
      | e :: rest =>
        if long && isSpace e then basic? long .lineEnd rest
        else if long && e = '\n' then basic? long .joined rest
        else
          match simpleEscape? e with
          | some d => cons? d (basic? long .text rest)
          | none => none
      | [] => none
    else if (if long then illegalInText c else illegalInLine c) then none
    else cons? c (basic? long .text cs)

/-- Any string, at its opening quote. -/
def string? (cs : List Char) : Option (String × List Char) :=
  let read : Option (List Char × List Char) := match cs with
    | '"' :: '"' :: '"' :: rest =>
      (basic? true .text (skipLineFeed rest)).map fun r => extraQuotes '"' r.1 r.2
    | '"' :: rest => basic? false .text rest
    | '\'' :: '\'' :: '\'' :: rest => longLiteral? rest
    | '\'' :: rest => literal? rest
    | _ => none
  read.map fun r => (String.ofList r.1, r.2)

/-! ## Numbers -/

/-- The digits that follow a digit, each perhaps after one underscore. -/
def moreDigits (isDigit : Char → Bool) : List Char → List Char × List Char
  | '_' :: c :: rest =>
    if isDigit c then
      let r := moreDigits isDigit rest
      (c :: r.1, r.2)
    else ([], '_' :: c :: rest)
  | c :: rest =>
    if isDigit c then
      let r := moreDigits isDigit rest
      (c :: r.1, r.2)
    else ([], c :: rest)
  | [] => ([], [])

/-- Digits with single underscores between them. -/
def digits? (isDigit : Char → Bool) : List Char → Option (List Char × List Char)
  | c :: rest =>
    if isDigit c then
      let r := moreDigits isDigit rest
      some (c :: r.1, r.2)
    else none
  | [] => none

/-- Digits of a decimal integer: no zero stands before another digit. -/
def wholePart? : List Char → Option (List Char × List Char)
  | '0' :: rest => some (['0'], rest)
  | cs => digits? Char.isDigit cs

/-- The digits after a decimal point; none when no digit follows the point. -/
def fractionPart (cs : List Char) : List Char × List Char :=
  match cs with
  | '.' :: rest => (digits? Char.isDigit rest).getD ([], cs)
  | _ => ([], cs)

/-- The exponent of a number, `none` when there is none. -/
def exponentPart (cs : List Char) : Option Int × List Char :=
  match cs with
  | e :: rest =>
    if e = 'e' || e = 'E' then
      let (negative, body) := Text.splitSign rest
      match digits? Char.isDigit body with
      | some (ds, after) => (some (Text.signed negative (Text.numberIn 10 ds)), after)
      | none => (none, cs)
    else (none, cs)
  | [] => (none, cs)

/-- A decimal integer, or a float when a fraction or an exponent follows.  Only an integer has a
limit on its digits. -/
def decimal (cs : List Char) : Except Failure (Value × List Char) := do
  let (negative, body) := Text.splitSign cs
  let (whole, rest) ← orMalformed (wholePart? body)
  let (fraction, rest) := fractionPart rest
  let (exponent, rest) := exponentPart rest
  if fraction.isEmpty && exponent.isNone then
    if Text.digitLimit < whole.length then .error (.tooManyDigits whole.length)
    else .ok (.int (Text.signed negative (Text.numberIn 10 whole)), rest)
  else
    let scale := exponent.getD 0 - fraction.length
    .ok (.float (.ofDecimal negative (Text.numberIn 10 (whole ++ fraction)) scale), rest)

/-- An integer in another base, after its letter. -/
def based? (base : Nat) (isDigit : Char → Bool) (cs : List Char) : Option (Value × List Char) :=
  (digits? isDigit cs).map fun r => (.int (Text.numberIn base r.1), r.2)

/-- The numbers that are written as words. -/
def namedFloat? (cs : List Char) : Option (Value × List Char) :=
  let (negative, body) := Text.splitSign cs
  match body with
  | 'i' :: 'n' :: 'f' :: rest => some (.float (.infinite negative), rest)
  | 'n' :: 'a' :: 'n' :: rest => some (.float .nan, rest)
  | _ => none

def number (cs : List Char) : Except Failure (Value × List Char) :=
  let based := match cs with
    | '0' :: 'x' :: rest => based? 16 Text.isHexDigit rest
    | '0' :: 'o' :: rest => based? 8 (fun c => '0' ≤ c && c ≤ '7') rest
    | '0' :: 'b' :: rest => based? 2 (fun c => c = '0' || c = '1') rest
    | _ => none
  match based.or (namedFloat? cs) with
  | some r => .ok r
  | none => decimal cs

/-! ## Dates and times -/

/-- A number of exactly `n` digits. -/
def fixedDigits? (n : Nat) (cs : List Char) : Option (Nat × List Char) :=
  let ds := cs.take n
  if ds.length = n && ds.all Char.isDigit then some (Text.numberIn 10 ds, cs.drop n) else none

/-- The rest after a given character. -/
def after? (c : Char) : List Char → Option (List Char)
  | d :: rest => if d = c then some rest else none
  | [] => none

/-- The microseconds of a fraction of a second; further digits are dropped. -/
def secondFraction (cs : List Char) : Nat × List Char :=
  match cs with
  | '.' :: rest =>
    let ds := rest.takeWhile Char.isDigit
    if ds.isEmpty then (0, cs)
    else
      let micro := ds.take 6
      (Text.numberIn 10 (micro ++ List.replicate (6 - micro.length) '0'), rest.drop ds.length)
  | _ => (0, cs)

/-- Hours and minutes, as in `23:59`. -/
def hourMinute? (cs : List Char) : Option ((Nat × Nat) × List Char) := do
  let (hour, cs) ← fixedDigits? 2 cs
  let cs ← after? ':' cs
  let (minute, cs) ← fixedDigits? 2 cs
  if hour < 24 && minute < 60 then some ((hour, minute), cs) else none

def time? (cs : List Char) : Option (TimeOfDay × List Char) := do
  let ((hour, minute), cs) ← hourMinute? cs
  let cs ← after? ':' cs
  let (second, cs) ← fixedDigits? 2 cs
  if second < 60 then
    let (microsecond, cs) := secondFraction cs
    some ({ hour, minute, second, microsecond }, cs)
  else none

/-- A date by its form only: the day need not be in its month. -/
def date? (cs : List Char) : Option (Date × List Char) := do
  let (year, cs) ← fixedDigits? 4 cs
  let cs ← after? '-' cs
  let (month, cs) ← fixedDigits? 2 cs
  let cs ← after? '-' cs
  let (day, cs) ← fixedDigits? 2 cs
  if 1 ≤ month && month ≤ 12 && 1 ≤ day && day ≤ 31 then some ({ year, month, day }, cs)
  else none

/-- An offset from UTC in minutes, if one follows. -/
def offset (cs : List Char) : Option Int × List Char :=
  match cs with
  | [] => (none, cs)
  | c :: rest =>
    if c = 'Z' || c = 'z' then (some 0, rest)
    else if c = '+' || c = '-' then
      match hourMinute? rest with
      | some ((hour, minute), after) =>
        (some (Text.signed (c = '-') (60 * hour + minute)), after)
      | none => (none, cs)
    else (none, cs)

/-- The time of day that follows a date, if one does. -/
def timeAfterDate? : List Char → Option (TimeOfDay × List Char)
  | c :: rest => if c = 'T' || c = 't' || c = ' ' then time? rest else none
  | [] => none

/-- What a text with the form of a moment holds: the moment, `none` for a date that is in no
calendar, and the rest. -/
def moment? (cs : List Char) : Option (Option Moment × List Char) :=
  match date? cs with
  | some (d, rest) =>
    let (m, rest) := match timeAfterDate? rest with
      | some (t, rest) =>
        let (o, rest) := offset rest
        (Moment.both d t o, rest)
      | none => (Moment.date d, rest)
    some (if d.isValid then some m else none, rest)
  | none => (time? cs).map fun r => (some (.time r.1), r.2)

end CallAlign.Toml
