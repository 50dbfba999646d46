import CallAlign.Number.Shortest
import CallAlign.Text.Digit
import CallAlign.Text.Quoted

/-!
# Untyped values

What a configuration file or a request holds before it is checked.  A JSON value has no moments, a
TOML value no null.  `Value.text` is how a message shows a value.
-/

namespace CallAlign

/-! ## Dates and times -/

structure Date where
  year : Nat
  month : Nat
  day : Nat
  deriving DecidableEq, Repr

structure TimeOfDay where
  hour : Nat
  minute : Nat
  second : Nat
  microsecond : Nat
  deriving DecidableEq, Repr

/-- A date, a time of day or both; `offset` is in minutes east of UTC. -/
inductive Moment where
  | date (d : Date)
  | time (t : TimeOfDay)
  | both (d : Date) (t : TimeOfDay) (offset : Option Int)
  deriving DecidableEq, Repr

namespace Date

def isLeap (year : Nat) : Bool := year % 4 == 0 && (year % 100 != 0 || year % 400 == 0)

def daysInMonth (year month : Nat) : Nat :=
  if month = 2 then (if isLeap year then 29 else 28)
  else if month = 4 || month = 6 || month = 9 || month = 11 then 30 else 31

/-- The date is in the calendar. -/
def isValid (d : Date) : Bool :=
  1 ≤ d.year && 1 ≤ d.month && d.month ≤ 12 && 1 ≤ d.day && d.day ≤ daysInMonth d.year d.month

end Date

def Date.parts (d : Date) : List String := [d.year, d.month, d.day].map toString

/-- The parts of a time; seconds and microseconds only down to the last that is not zero. -/
def TimeOfDay.parts (t : TimeOfDay) : List String :=
  let all := [t.hour, t.minute, t.second, t.microsecond]
  let shown :=
    if t.microsecond != 0 then all else if t.second != 0 then all.take 3 else all.take 2
  shown.map toString

/-- An offset from UTC; days are counted down so that the seconds are not negative. -/
def offsetText (minutes : Int) : String :=
  if minutes = 0 then "tzinfo=datetime.timezone.utc"
  else
    let seconds := minutes * 60
    let days := seconds / 86400
    let rest := "seconds=" ++ toString (seconds % 86400)
    let inside := if days = 0 then rest else "days=" ++ toString days ++ ", " ++ rest
    "tzinfo=datetime.timezone(datetime.timedelta(" ++ inside ++ "))"

def Moment.text : Moment → String
  | date d => "datetime.date(" ++ Text.listed d.parts ++ ")"
  | time t => "datetime.time(" ++ Text.listed t.parts ++ ")"
  | both d t offset =>
    let parts := d.parts ++ t.parts ++ (offset.map offsetText).toList
    "datetime.datetime(" ++ Text.listed parts ++ ")"

/-! ## Values -/

inductive Value where
  | null
  | bool (b : Bool)
  | int (n : Int)
  | float (x : Binary64)
  | str (s : String)
  | moment (m : Moment)
  | list (items : List Value)
  | table (entries : List (String × Value))
  deriving Repr

namespace Value

mutual

/-- A value as a message shows it. -/
def text : Value → String
  | .null => "None"
  | .bool true => "True"
  | .bool false => "False"
  | .int n => toString n
  | .float x => x.text
  | .str s => Text.quoted s
  | .moment m => m.text
  | .list items => "[" ++ Text.listed (textItems items) ++ "]"
  | .table entries => "\x7b" ++ Text.listed (textEntries entries) ++ "\x7d"

def textItems : List Value → List String
  | [] => []
  | v :: vs => text v :: textItems vs

def textEntries : List (String × Value) → List String
  | [] => []
  | (k, v) :: rest => (Text.quoted k ++ ": " ++ text v) :: textEntries rest

end

mutual

/-- No integer in the value has too many digits to be written. -/
def isWritable : Value → Bool
  | .int n => decide (n.natAbs < Nat.pow 10 Text.digitLimit)
  | .list items => areWritable items
  | .table entries => entriesWritable entries
  | _ => true

def areWritable : List Value → Bool
  | [] => true
  | v :: vs => isWritable v && areWritable vs

def entriesWritable : List (String × Value) → Bool
  | [] => true
  | (_, v) :: rest => isWritable v && entriesWritable rest

end

end Value

end CallAlign
