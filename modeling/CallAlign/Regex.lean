/-!
# Regular expressions over sets of characters

An expression is matched from its end: given at which places of a text the rest matches, `back`
tells at which places the expression followed by the rest does.  A place is a number of characters
passed, so a text of `n` characters has `n + 1` of them, and a row of truth values holds one for
each.  The work is the size of the expression times the length of the text.

    length_back : a row keeps its length
-/

namespace CallAlign

/-- Characters given by inclusive ranges, or all but those. -/
structure CharSet where
  negated : Bool
  ranges : List (Char × Char)
  deriving DecidableEq, Repr

namespace CharSet

def contains (s : CharSet) (c : Char) : Bool :=
  (s.ranges.any fun r => r.1.toNat ≤ c.toNat && c.toNat ≤ r.2.toNat) != s.negated

def single (c : Char) : CharSet := { negated := false, ranges := [(c, c)] }

def allBut (cs : List Char) : CharSet := { negated := true, ranges := cs.map fun c => (c, c) }

def all : CharSet := allBut []

end CharSet

/-- `one` and `many` take one character, or any number of characters, from a set; `start` and
`finish` are the ends of the text, `finish` also the place before a line feed that ends it. -/
inductive Regex where
  | empty
  | one (set : CharSet)
  | many (set : CharSet)
  | start
  | finish
  | seq (a b : Regex)
  | alt (a b : Regex)
  deriving Repr

namespace Regex

def ofList (rs : List Regex) : Regex := rs.foldr seq empty

def optional (r : Regex) : Regex := alt r empty

/-! ## Matching -/

def oneRow (set : CharSet) : List Char → List Bool → List Bool
  | c :: cs, _ :: next => (set.contains c && next.headD false) :: oneRow set cs next
  | _, next => next.map fun _ => false

def manyRow (set : CharSet) : List Char → List Bool → List Bool
  | c :: cs, here :: next =>
    let later := manyRow set cs next
    (here || (set.contains c && later.headD false)) :: later
  | _, next => next

def startRow : List Bool → List Bool
  | [] => []
  | here :: next => here :: next.map fun _ => false

def finishRow : List Char → List Bool → List Bool
  | ['\n'], row => row
  | _ :: cs, _ :: next => false :: finishRow cs next
  | _, row => row

/-- The places from which an expression leads to a place of the given row. -/
def back (text : List Char) : Regex → List Bool → List Bool
  | empty, next => next
  | one set, next => oneRow set text next
  | many set, next => manyRow set text next
  | start, next => startRow next
  | finish, next => finishRow text next
  | seq a b, next => back text a (back text b next)
  | alt a b, next => List.zipWith (· || ·) (back text a next) (back text b next)

/-- The row that holds only at the end of a text. -/
def endRow (text : List Char) : List Bool := text.map (fun _ => false) ++ [true]

/-- The row that holds everywhere in a text. -/
def fullRow (text : List Char) : List Bool := text.map (fun _ => true) ++ [true]

/-- The expression matches the whole text. -/
def matchesAll (r : Regex) (text : List Char) : Bool :=
  (r.back text (endRow text)).headD false

/-- The expression matches some part of the text. -/
def matchesPart (r : Regex) (text : List Char) : Bool :=
  (r.back text (fullRow text)).any id

/-! ## Lemmas -/

theorem length_oneRow (set : CharSet) (text : List Char) (next : List Bool) :
    (oneRow set text next).length = next.length := by
  induction text generalizing next with
  | nil => simp [oneRow]
  | cons c cs ih => cases next <;> simp [oneRow, ih]

theorem length_manyRow (set : CharSet) (text : List Char) (next : List Bool) :
    (manyRow set text next).length = next.length := by
  induction text generalizing next with
  | nil => simp [manyRow]
  | cons c cs ih => cases next <;> simp [manyRow, ih]

theorem length_finishRow (text : List Char) (next : List Bool) :
    (finishRow text next).length = next.length := by
  fun_induction finishRow text next <;> simp_all

theorem length_back (text : List Char) (r : Regex) (next : List Bool) :
    (r.back text next).length = next.length := by
  induction r generalizing next with
  | empty => rfl
  | one set => exact length_oneRow set text next
  | many set => exact length_manyRow set text next
  | start => cases next <;> simp [back, startRow]
  | finish => exact length_finishRow text next
  | seq a b iha ihb => rw [back, iha, ihb]
  | alt a b iha ihb => simp [back, iha, ihb]

end Regex

end CallAlign
