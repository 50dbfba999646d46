/-!
# Binary floating-point numbers

The 64-bit binary floating-point numbers, held exactly: a finite one is a sign, an integer below
2^53 and a power of two from 2^(-1074) to 2^971.  A decimal numeral reads as the nearest of them,
a tie as the one with the even integer.
-/

namespace CallAlign

inductive Binary64 where
  | nan
  | infinite (negative : Bool)
  | finite (negative : Bool) (significand : Nat) (exponent : Int)
  deriving DecidableEq, Repr

namespace Binary64

/-! ## Rounding -/

def twoTo (n : Nat) : Nat := Nat.pow 2 n

def tenTo (n : Nat) : Nat := Nat.pow 10 n

/-- The integer nearest to a quotient, a tie going to the even one. -/
def roundDiv (num den : Nat) : Nat :=
  let q := num / den
  let twice := 2 * (num % den)
  if twice < den || (twice == den && q % 2 == 0) then q else q + 1

/-- The number nearest to `num / (den · 2^exponent)` units of `2^exponent`. -/
def scaled (num den : Nat) (exponent : Int) : Nat :=
  if exponent < 0 then roundDiv (num * twoTo (-exponent).toNat) den
  else roundDiv num (den * twoTo exponent.toNat)

/-- The power of two of the unit in which a positive quotient has 53 bits, or the least one. -/
def unitExponent (num den : Nat) : Int :=
  let e := (Nat.log2 num : Int) - Nat.log2 den - 52
  let short :=
    if e < 0 then num * twoTo (-e).toNat < den * twoTo 52 else num < den * twoTo e.toNat * twoTo 52
  max (-1074) (if short then e - 1 else e)

/-- The number nearest to a quotient. -/
def ofRatio (negative : Bool) (num den : Nat) : Binary64 :=
  if num = 0 then .finite negative 0 (-1074)
  else
    let e := unitExponent num den
    let n := scaled num den e
    let (n, e) := if n = twoTo 53 then (twoTo 52, e + 1) else (n, e)
    if e > 971 then .infinite negative else .finite negative n e

/-- The number nearest to `digits · 10^exponent`.  Far outside the range the power of ten is not
worked out. -/
def ofDecimal (negative : Bool) (digits : Nat) (exponent : Int) : Binary64 :=
  let size : Int := (Nat.toDigits 10 digits).length + exponent
  if digits = 0 || size < -330 then .finite negative 0 (-1074)
  else if size > 320 then .infinite negative
  else if exponent < 0 then ofRatio negative digits (tenTo (-exponent).toNat)
  else ofRatio negative (digits * tenTo exponent.toNat) 1

/-! ## Integers -/

/-- The integer that a number is; `none` for a fraction, an infinity and for what is no number. -/
def toInt? : Binary64 → Option Int
  | .finite negative n e =>
    let magnitude :=
      if e < 0 then (if n % twoTo (-e).toNat = 0 then some (n / twoTo (-e).toNat) else none)
      else some (n * twoTo e.toNat)
    magnitude.map fun m => if negative then -(m : Int) else m
  | _ => none

end Binary64

end CallAlign
