import CallAlign.Number.Binary64

/-!
# Shortest decimals

The decimal numeral of a binary number with the fewest digits that still reads as that number, and
of those the nearest to it.  For each digit count the two neighbours of the number on the grid of
such numerals are tried; all comparisons are of integers.
-/

namespace CallAlign.Binary64

/-! ## The interval that reads as a number -/

/-- A positive number and the interval around it, in units of a quarter of its last place: both
ends read as the number when it is even. -/
structure Reading where
  low : Nat
  value : Nat
  high : Nat
  closed : Bool

/-- At a power of two the numbers below lie twice as close. -/
def reading (significand : Nat) (exponent : Int) : Reading :=
  let below := if significand = twoTo 52 && exponent > -1074 then 1 else 2
  { low := 4 * significand - below, value := 4 * significand, high := 4 * significand + 2,
    closed := significand % 2 = 0 }

/-! ## The grid of numerals -/

/-- The value of a unit of the reading, as a multiple of the grid's unit `10^place`: the
numerator and the denominator. -/
def gridRatio (exponent place : Int) : Nat × Nat :=
  let q := exponent - 2
  (twoTo q.toNat * tenTo (-place).toNat, twoTo (-q).toNat * tenTo place.toNat)

/-- A numeral `n` of the grid lies in the interval. -/
def Reading.holds (r : Reading) (ratio : Nat × Nat) (n : Nat) : Bool :=
  let x := n * ratio.2
  if r.closed then r.low * ratio.1 ≤ x && x ≤ r.high * ratio.1
  else r.low * ratio.1 < x && x < r.high * ratio.1

/-- The numeral of the grid nearest to the number among its neighbours in the interval. -/
def Reading.nearest? (r : Reading) (ratio : Nat × Nat) : Option Nat :=
  let v := r.value * ratio.1
  let n := v / ratio.2
  let down := v - n * ratio.2
  let up := (n + 1) * ratio.2 - v
  match r.holds ratio n, r.holds ratio (n + 1) with
  | false, false => none
  | true, false => some n
  | false, true => some (n + 1)
  | true, true => some (if down < up || (down == up && n % 2 == 0) then n else n + 1)

/-- The number of digits before the decimal point, or minus the zeros that follow it. -/
def decimalSize (significand : Nat) (exponent : Int) : Int :=
  let shifted := significand * twoTo exponent.toNat * tenTo 400 / twoTo (-exponent).toNat
  ((Nat.toDigits 10 shifted).length : Int) - 400

/-- The shortest numeral of a positive number: its digits and the power of ten of the last one. -/
def shortest (significand : Nat) (exponent : Int) : Nat × Int :=
  let r := reading significand exponent
  let size := decimalSize significand exponent
  let tries := (List.range 17).findSome? fun i =>
    let place := size - (i + 1 : Nat)
    (r.nearest? (gridRatio exponent place)).map fun n => (n, place)
  tries.getD (0, 0)

/-! ## Text -/

/-- Digits with a point after the first `point` of them, filled with zeros where they do not
reach. -/
def positional (digits : List Char) (point : Int) : List Char :=
  if point ≤ 0 then '0' :: '.' :: (List.replicate (-point).toNat '0' ++ digits)
  else
    let n := point.toNat
    if digits.length ≤ n then digits ++ List.replicate (n - digits.length) '0' ++ ['.', '0']
    else digits.take n ++ '.' :: digits.drop n

/-- Digits with a point after the first one and an exponent of at least two digits. -/
def scientific (digits : List Char) (point : Int) : List Char :=
  let e := point - 1
  let mantissa := match digits with
    | d :: [] => [d]
    | d :: rest => d :: '.' :: rest
    | [] => []
  let size := Nat.toDigits 10 e.natAbs
  mantissa ++ ['e', if e < 0 then '-' else '+'] ++ List.replicate (2 - size.length) '0' ++ size

/-- A number in a message: the shortest digits, positional from 10^(-4) up to 10^16. -/
def text : Binary64 → String
  | .nan => "nan"
  | .infinite negative => if negative then "-inf" else "inf"
  | .finite negative n e =>
    let digits :=
      if n = 0 then ['0', '.', '0']
      else
        let (d, place) := shortest n e
        let ds := Nat.toDigits 10 d
        let point := (ds.length : Int) + place
        let ds := (ds.reverse.dropWhile (· == '0')).reverse
        if -4 < point && point ≤ 16 then positional ds point else scientific ds point
    String.ofList (if negative then '-' :: digits else digits)

end CallAlign.Binary64
