import CallAlign.Offense

/-!
# JSON lines

A record is written on a line of its own in one canonical form: no blanks, the members of every
object in code point order of their keys, and in strings only the escapes that JSON demands.
Integers outside 64 bits cannot be written, and then nothing is.

    jsonLines? records = none   exactly when some integer of some record is out of range
-/

namespace CallAlign

/-- A record: JSON without fractions. -/
inductive Json where
  | null
  | bool (b : Bool)
  | int (n : Int)
  | str (s : String)
  | arr (items : List Json)
  | obj (members : List (String × Json))
  deriving Repr

namespace Json

/-! ## The canonical form -/

/-- Members in code point order of their keys. -/
def keyLE (a b : String × Json) : Bool := codePointLE a.1.toList b.1.toList

mutual

/-- The value with the members of all its objects sorted. -/
def canonical : Json → Json
  | .arr items => .arr (canonicalItems items)
  | .obj members => .obj ((canonicalMembers members).mergeSort keyLE)
  | v => v

def canonicalItems : List Json → List Json
  | [] => []
  | v :: vs => canonical v :: canonicalItems vs

def canonicalMembers : List (String × Json) → List (String × Json)
  | [] => []
  | (k, v) :: rest => (k, canonical v) :: canonicalMembers rest

end

/-! ## Writing -/

/-- A character inside a string. -/
def escape (c : Char) : List Char :=
  match c with
  | '"' => ['\\', '"']
  | '\\' => ['\\', '\\']
  | '\n' => ['\\', 'n']
  | '\r' => ['\\', 'r']
  | '\t' => ['\\', 't']
  | '\x08' => ['\\', 'b']
  | '\x0c' => ['\\', 'f']
  | _ =>
    if c.toNat < 0x20 then
      ['\\', 'u', '0', '0', Nat.digitChar (c.toNat / 16), Nat.digitChar (c.toNat % 16)]
    else [c]

def quoted (s : String) : List Char := '"' :: s.toList.flatMap escape ++ ['"']

mutual

/-- A value as it stands, without blanks. -/
def write : Json → List Char
  | .null => "null".toList
  | .bool true => "true".toList
  | .bool false => "false".toList
  | .int n => (toString n).toList
  | .str s => quoted s
  | .arr items => '[' :: writeItems items ++ [']']
  | .obj members => '{' :: writeMembers members ++ ['}']

def writeItems : List Json → List Char
  | [] => []
  | [v] => write v
  | v :: vs => write v ++ ',' :: writeItems vs

def writeMembers : List (String × Json) → List Char
  | [] => []
  | [(k, v)] => quoted k ++ ':' :: write v
  | (k, v) :: rest => quoted k ++ ':' :: write v ++ ',' :: writeMembers rest

end

/-- The canonical text of a value. -/
def text (v : Json) : List Char := v.canonical.write

/-! ## Range -/

/-- Integers of 64 bits, signed or unsigned: from -2^63 to below 2^64. -/
def intFits (n : Int) : Bool := -9223372036854775808 ≤ n && n < 18446744073709551616

mutual

/-- All integers of the value can be written. -/
def fits : Json → Bool
  | .int n => intFits n
  | .arr items => fitsItems items
  | .obj members => fitsMembers members
  | _ => true

def fitsItems : List Json → Bool
  | [] => true
  | v :: vs => fits v && fitsItems vs

def fitsMembers : List (String × Json) → Bool
  | [] => true
  | (_, v) :: rest => fits v && fitsMembers rest

end

end Json

/-- The records, each followed by a line feed; `none` when an integer does not fit. -/
def jsonLines? (records : List Json) : Option String :=
  if records.all Json.fits then
    some (String.ofList (records.flatMap fun record => record.text ++ ['\n']))
  else none

/-- What is said of a record that cannot be written. -/
def integerRangeMessage : String := "Integer exceeds 64-bit range"

end CallAlign
