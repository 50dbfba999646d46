import CallAlign.Text.Digit
import CallAlign.Value

/-!
# Reading fields off untyped values

A field takes more than values of its own type: words and the numbers 0 and 1 for a truth value,
whole floating-point numbers of 64 bits and numerals in text for an integer.  A value that does not
do is an issue; the issues of all fields of a table are collected.

    toInt_int, toBool_bool, toText_str : a value of the field's own type is taken as it is
-/

namespace CallAlign

/-! ## Issues -/

/-- What is wrong with a value. -/
inductive Fault where
  | missing
  | notTable
  | unknownKey
  | boolWord
  | boolType
  | intNumeral
  | intSize
  | intType
  | intFraction
  | intInfinite
  | below (least : Int)
  | textType
  | notOneOf (choices : List String)
  | badPattern (shown : String)
  | longPattern
  deriving DecidableEq, Repr

/-- `a`, `a or b`, `a, b or c`. -/
def alternatives : List String → String
  | [] => ""
  | [a] => a
  | [a, b] => a ++ " or " ++ b
  | a :: rest => a ++ ", " ++ alternatives rest

namespace Fault

/-- The short name of a fault. -/
def code : Fault → String
  | missing => "missing"
  | notTable => "model_type"
  | unknownKey => "extra_forbidden"
  | boolWord => "bool_parsing"
  | boolType => "bool_type"
  | intNumeral => "int_parsing"
  | intSize => "int_parsing_size"
  | intType => "int_type"
  | intFraction => "int_from_float"
  | intInfinite => "finite_number"
  | below _ => "greater_than_equal"
  | textType => "string_type"
  | notOneOf _ => "literal_error"
  | badPattern _ => "value_error"
  | longPattern => "value_error"

def message : Fault → String
  | missing => "Field required"
  | notTable => "Input should be a valid dictionary or instance of ParamAlignConfig"
  | unknownKey => "Extra inputs are not permitted"
  | boolWord => "Input should be a valid boolean, unable to interpret input"
  | boolType => "Input should be a valid boolean"
  | intNumeral => "Input should be a valid integer, unable to parse string as an integer"
  | intSize => "Unable to parse input string as an integer, exceeded maximum size"
  | intType => "Input should be a valid integer"
  | intFraction => "Input should be a valid integer, got a number with a fractional part"
  | intInfinite => "Input should be a finite number"
  | below least => "Input should be greater than or equal to " ++ toString least
  | textType => "Input should be a valid string"
  | notOneOf choices => "Input should be " ++ alternatives (choices.map fun c => "'" ++ c ++ "'")
  | badPattern shown => "Value error, Invalid glob pattern: " ++ shown
  | longPattern => "Value error, " ++ Text.digitLimitMessage ""

end Fault

/-- A fault and the keys that lead to the faulty value. -/
structure Issue where
  location : List String
  fault : Fault
  deriving DecidableEq, Repr

/-! ## Single values -/

namespace Value

def trueWords : List String := ["1", "on", "t", "true", "y", "yes"]

def falseWords : List String := ["0", "off", "f", "false", "n", "no"]

/-- A truth value: itself, 0 or 1, or one of a few words in any case. -/
def toBool : Value → Except Fault Bool
  | .bool b => .ok b
  | .int n => if n = 0 then .ok false else if n = 1 then .ok true else .error .boolWord
  | .float x =>
    match x.toInt? with
    | some n => if n = 0 then .ok false else if n = 1 then .ok true else .error .boolWord
    | none => .error .boolType
  | .str s =>
    let word := s.map Char.toLower
    if trueWords.contains word then .ok true
    else if falseWords.contains word then .ok false
    else .error .boolWord
  | _ => .error .boolType

def asciiDigit? (c : Char) : Option Nat := if c.isDigit then some (c.toNat - '0'.toNat) else none

/-- The sign and the digits of a numeral: single underscores may stand between the digits, and
zeros may follow after a point. -/
def numeral? (cs : List Char) : Option (Bool × List Nat) := do
  let (negative, body) := Text.splitSign (Text.trimBy Text.isWhiteSpace cs)
  let whole := body.takeWhile (· != '.')
  let zeros := body.drop whole.length
  let digits ← Text.digitRun? asciiDigit? false whole
  if zeros.isEmpty || (zeros.length ≥ 2 && zeros.tail.all (· == '0')) then some (negative, digits)
  else none

/-- A floating-point number is taken as an integer when it is below this bound, and above the
negative one. -/
def floatBound : Int := 9223372036854775808

/-- An integer: itself, a truth value as 0 or 1, a whole number, or a numeral. -/
def toInt : Value → Except Fault Int
  | .int n => .ok n
  | .bool b => .ok (if b then 1 else 0)
  | .float .nan => .error .intInfinite
  | .float (.infinite _) => .error .intInfinite
  | .float x =>
    match x.toInt? with
    | some n => if -floatBound < n && n < floatBound then .ok n else .error .intSize
    | none => .error .intFraction
  | .str s =>
    match numeral? s.toList with
    | some (negative, digits) =>
      if (digits.dropWhile (· == 0)).length ≤ Text.digitLimit then
        .ok (Text.signed negative (Text.ofDigits digits))
      else .error .intSize
    | none => .error .intNumeral
  | _ => .error .intType

/-- An integer that is not too small. -/
def toIntFrom (least : Int) (v : Value) : Except Fault Int :=
  match v.toInt with
  | .ok n => if n < least then .error (.below least) else .ok n
  | .error e => .error e

def toText : Value → Except Fault String
  | .str s => .ok s
  | _ => .error .textType

/-- One of some values, given by its name. -/
def toChoice {α : Type} (choices : List α) (name : α → String) (v : Value) : Except Fault α :=
  let found := match v with
    | .str s => choices.find? (name · == s)
    | _ => none
  match found with
  | some a => .ok a
  | none => .error (.notOneOf (choices.map name))

end Value

/-! ## Fields -/

/-- A field of a table: what it holds, or its issue.  `absent` is what it is when it is missing. -/
def readField {α : Type} (entries : List (String × Value)) (key : String)
    (read : Value → Except Fault α) (absent : Except Fault α) : Except Issue α :=
  let result := match entries.lookup key with
    | some v => read v
    | none => absent
  match result with
  | .ok a => .ok a
  | .error fault => .error { location := [key], fault }

/-- The issue of a field, if there is one. -/
def issueOf {α : Type} : Except Issue α → List Issue
  | .ok _ => []
  | .error issue => [issue]

/-! ## Lemmas -/

theorem toInt_int (n : Int) : (Value.int n).toInt = .ok n := rfl

theorem toBool_bool (b : Bool) : (Value.bool b).toBool = .ok b := rfl

theorem toText_str (s : String) : (Value.str s).toText = .ok s := rfl

end CallAlign
