import CallAlign.Regex

/-!
# Regular expressions as text

The usual notation, as far as ignore rules need it: sets in brackets, groups with `|`, a star after
a set, a question mark after a group, `^`, `$`, and the backslash that takes a character for
itself.  In a set a closing bracket that stands first is literal, and a set that its bracket leaves
open takes in what follows.  A text that breaks the rules has no meaning.
-/

namespace CallAlign.Regex

/-! ## Marks -/

/-- A character, and whether a backslash stands before it. -/
abbrev Mark := Char × Bool

/-- The characters of a text with their backslashes.  A letter or digit is never escaped. -/
def marks? : List Char → Option (List Mark)
  | [] => some []
  | '\\' :: c :: rest => if c.isAlphanum then none else (marks? rest).map ((c, true) :: ·)
  | '\\' :: [] => none
  | c :: rest => (marks? rest).map ((c, false) :: ·)

/-! ## Tokens -/

inductive Token where
  | set (s : CharSet)
  | star
  | question
  | start
  | finish
  | opening
  | closing
  | bar
  deriving DecidableEq, Repr

/-- What a character means outside sets. -/
def tokenOf : Mark → Token
  | ('*', false) => .star
  | ('?', false) => .question
  | ('^', false) => .start
  | ('$', false) => .finish
  | ('(', false) => .opening
  | (')', false) => .closing
  | ('|', false) => .bar
  | ('.', false) => .set (.allBut ['\n'])
  | (c, _) => .set (.single c)

/-- Where a text is being read: outside sets, at the start of one, between the ranges of one, after
a character of one that may begin a range, and after the hyphen of a range. -/
inductive Place where
  | outside
  | opened
  | between (negated : Bool) (ranges : List (Char × Char))
  | member (negated : Bool) (ranges : List (Char × Char)) (c : Char)
  | range (negated : Bool) (ranges : List (Char × Char)) (c : Char)

/-- The tokens of a text; a set that does not end and a range that runs backwards have no
meaning. -/
def tokens? : Place → List Mark → Option (List Token)
  | .outside, [] => some []
  | _, [] => none
  | place, mark :: rest =>
    let close (negated : Bool) (ranges : List (Char × Char)) :=
      (tokens? .outside rest).map (.set { negated, ranges } :: ·)
    match place with
    | .outside =>
      if mark = ('[', false) then tokens? .opened rest
      else (tokens? .outside rest).map (tokenOf mark :: ·)
    | .opened =>
      if mark = ('^', false) then tokens? (.between true []) rest
      else tokens? (.member false [] mark.1) rest
    | .between negated ranges =>
      if mark = (']', false) && !ranges.isEmpty then close negated ranges
      else tokens? (.member negated ranges mark.1) rest
    | .member negated ranges c =>
      if mark = (']', false) then close negated (ranges ++ [(c, c)])
      else if mark = ('-', false) then tokens? (.range negated ranges c) rest
      else tokens? (.member negated (ranges ++ [(c, c)]) mark.1) rest
    | .range negated ranges c =>
      if mark = (']', false) then close negated (ranges ++ [(c, c), ('-', '-')])
      else if mark.1.toNat < c.toNat then none
      else tokens? (.between negated (ranges ++ [(c, mark.1)])) rest

/-! ## Expressions -/

/-- A group that is being read: its alternatives but the last, and the last one, backwards. -/
structure Group where
  before : Option Regex
  items : List Regex

namespace Group

def empty : Group := { before := none, items := [] }

def push (g : Group) (r : Regex) : Group := { g with items := r :: g.items }

def expression (g : Group) : Regex :=
  let last := ofList g.items.reverse
  g.before.elim last (.alt · last)

end Group

/-- The expression of some tokens inside the open groups, the innermost first. -/
def build? : Group → List Group → List Token → Option Regex
  | g, [], [] => some g.expression
  | _, _ :: _, [] => none
  | g, outer, .set s :: .star :: rest => build? (g.push (.many s)) outer rest
  | g, outer, .set s :: rest => build? (g.push (.one s)) outer rest
  | g, outer, .start :: rest => build? (g.push .start) outer rest
  | g, outer, .finish :: rest => build? (g.push .finish) outer rest
  | g, outer, .opening :: rest => build? .empty (g :: outer) rest
  | g, outer, .bar :: rest => build? { before := some g.expression, items := [] } outer rest
  | g, h :: outer, .closing :: .question :: rest =>
    build? (h.push (.optional g.expression)) outer rest
  | g, h :: outer, .closing :: rest => build? (h.push g.expression) outer rest
  | _, _, _ => none

/-- The expression that a text writes. -/
def ofText? (cs : List Char) : Option Regex := do
  build? .empty [] (← tokens? .outside (← marks? cs))

end CallAlign.Regex
