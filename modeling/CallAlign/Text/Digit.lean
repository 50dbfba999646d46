import CallAlign.Text.Blank

/-!
# Integers as people type them

A decimal integer may be written with the digits of any script, in runs joined by single
underscores, after an optional sign, between blanks.
-/

namespace CallAlign.Text

/-! ## Digits -/

/-- The zeros of all decimal digit runs of Unicode 14; nine more digits follow each. -/
def decimalZeros : List Nat := [
  0x30, 0x660, 0x6F0, 0x7C0, 0x966, 0x9E6, 0xA66, 0xAE6, 0xB66, 0xBE6, 0xC66, 0xCE6, 0xD66,
  0xDE6, 0xE50, 0xED0, 0xF20, 0x1040, 0x1090, 0x17E0, 0x1810, 0x1946, 0x19D0, 0x1A80, 0x1A90,
  0x1B50, 0x1BB0, 0x1C40, 0x1C50, 0xA620, 0xA8D0, 0xA900, 0xA9D0, 0xA9F0, 0xAA50, 0xABF0, 0xFF10,
  0x104A0, 0x10D30, 0x11066, 0x110F0, 0x11136, 0x111D0, 0x112F0, 0x11450, 0x114D0, 0x11650,
  0x116C0, 0x11730, 0x118E0, 0x11950, 0x11C50, 0x11D50, 0x11DA0, 0x16A60, 0x16AC0, 0x16B50,
  0x1D7CE, 0x1D7D8, 0x1D7E2, 0x1D7EC, 0x1D7F6, 0x1E140, 0x1E2F0, 0x1E950, 0x1FBF0]

/-- The value of a decimal digit of any script. -/
def digit? (c : Char) : Option Nat :=
  (decimalZeros.find? fun z => z ≤ c.toNat && c.toNat < z + 10).map (c.toNat - ·)

def isHexDigit (c : Char) : Bool :=
  c.isDigit || ('a' ≤ c && c ≤ 'f') || ('A' ≤ c && c ≤ 'F')

def hexDigit (c : Char) : Nat :=
  if c.isDigit then c.toNat - '0'.toNat else c.toLower.toNat - 'a'.toNat + 10

/-- The number that ASCII digits write in a base of at most sixteen. -/
def numberIn (base : Nat) (cs : List Char) : Nat :=
  cs.foldl (fun n c => base * n + hexDigit c) 0

/-! ## Integers -/

/-- Digits, with single underscores between them.  `before` is whether a digit stands before. -/
def digitRun? (digit : Char → Option Nat) (before : Bool) : List Char → Option (List Nat)
  | [] => if before then some [] else none
  | '_' :: c :: rest =>
    if before then do return (← digit c) :: (← digitRun? digit true rest) else none
  | c :: rest => do return (← digit c) :: (← digitRun? digit true rest)

/-- The number that decimal digits write. -/
def ofDigits (ds : List Nat) : Nat := ds.foldl (fun n d => 10 * n + d) 0

/-- The sign of a number and what follows it. -/
def splitSign : List Char → Bool × List Char
  | '+' :: rest => (false, rest)
  | '-' :: rest => (true, rest)
  | rest => (false, rest)

def signed (negative : Bool) (n : Nat) : Int := if negative then -n else n

/-- Texts with more digits than this are not read as numbers, nor are numbers written with more. -/
def digitLimit : Nat := 4300

/-- What is said of a number with too many digits; `detail` tells how many. -/
def digitLimitMessage (detail : String) : String :=
  "Exceeds the limit (" ++ toString digitLimit ++ " digits) for integer string conversion" ++
    detail ++ "; use sys.set_int_max_str_digits() to increase the limit"

/-- An integer as people type it. -/
def int? (cs : List Char) : Option Int := do
  let (negative, body) := splitSign (trimBy isWhiteSpace cs)
  let digits ← digitRun? digit? false body
  if digits.length ≤ digitLimit then some (signed negative (ofDigits digits)) else none

end CallAlign.Text
