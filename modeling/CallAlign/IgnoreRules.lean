import CallAlign.IgnoreRules.Pattern
import CallAlign.Regex.Text
import CallAlign.Text.Blank
import CallAlign.Utf8

/-!
# Ignore files

A file of patterns that says which paths are left out.  Each line is a rule, blank lines and
comments apart; a rule that begins with `!` takes paths back in.  The rules are checked from the
last one when one of them is negated, else from the first, and the first rule that matches decides.

    ignores_eq_any : without negated or malformed rules, a path is ignored when some rule matches it
-/

namespace CallAlign

/-- Why an ignore file cannot be used: its bytes are no UTF-8, a pattern ends before its rule is
complete, or a pattern with a malformed set is asked about a path. -/
inductive IgnoreError where
  | notUtf8
  | incomplete
  | malformedSet
  | unreadable
  deriving DecidableEq, Repr

/-- A rule; a malformed pattern has no expression. -/
structure IgnoreRule where
  negated : Bool
  expression : Option Regex
  deriving Repr

/-! ## Reading -/

namespace IgnoreRule

/-- The rule of a line, `none` when the line has none. -/
def ofLine (line : List Char) : Except IgnoreError (Option IgnoreRule) :=
  if Text.allBlank line || line.head? = some '#' then .ok none
  else
    let negated := line.head? == some '!'
    let cs := IgnorePattern.shortenStars true 0 (if negated then line.tail else line)
    if Text.trimEndBy Text.isBlank cs = ['/'] then .ok none
    else
      match (IgnorePattern.ofText? cs).bind (·.regexText? negated) with
      | none => .error .incomplete
      | some text => .ok (some { negated, expression := Regex.ofText? text })

/-- The rule matches a path. -/
def holds (r : IgnoreRule) (path : List Char) : Except IgnoreError Bool :=
  match r.expression with
  | some e => .ok (e.matchesPart path)
  | none => .error .malformedSet

end IgnoreRule

/-- The lines of a text; a carriage return ends one as well as a line feed, and so do both. -/
def splitLines : List Char → List (List Char)
  | [] => [[]]
  | '\r' :: '\n' :: cs => [] :: splitLines cs
  | c :: cs =>
    if c = '\n' || c = '\r' then [] :: splitLines cs
    else (splitLines cs).modifyHead (c :: ·)

namespace IgnoreRules

/-- The rules of some lines; the first line that has to have one and has none is the error. -/
def ofLines : List (List Char) → Except IgnoreError (List IgnoreRule)
  | [] => .ok []
  | line :: lines => do
    let rule ← IgnoreRule.ofLine line
    let rules ← ofLines lines
    return rule.toList ++ rules

/-- The rules of a file. -/
def ofBytes (bytes : List UInt8) : Except IgnoreError (List IgnoreRule) :=
  match Utf8.decode? bytes with
  | some text => ofLines (splitLines text)
  | none => .error .notUtf8

/-! ## Deciding -/

/-- The first rule that matches decides; no rule, no decision. -/
def firstDecides : List IgnoreRule → List Char → Except IgnoreError Bool
  | [], _ => .ok false
  | r :: rules, path => do
    if ← r.holds path then return !r.negated else firstDecides rules path

/-- The rules in the order in which they are checked. -/
def checkOrder (rules : List IgnoreRule) : List IgnoreRule :=
  if rules.any (·.negated) then rules.reverse else rules

/-- A path, from the directory of the file down, is ignored. -/
def ignores (rules : List IgnoreRule) (path : List Char) : Except IgnoreError Bool :=
  firstDecides (checkOrder rules) path

/-! ## Lemmas -/

theorem firstDecides_eq_any {rules : List IgnoreRule} {path : List Char}
    (hn : ∀ r ∈ rules, r.negated = false) (he : ∀ r ∈ rules, r.expression.isSome = true) :
    firstDecides rules path =
      .ok (rules.any fun r => r.expression.any (·.matchesPart path)) := by
  induction rules with
  | nil => rfl
  | cons r rules ih =>
    have hr := hn r (by simp)
    obtain ⟨e, hre⟩ := Option.isSome_iff_exists.1 (he r (by simp))
    have ih := ih (fun s hs => hn s (by simp [hs])) (fun s hs => he s (by simp [hs]))
    rw [firstDecides, IgnoreRule.holds, hre]
    cases hm : e.matchesPart path with
    | true => simp [bind, Except.bind, pure, Except.pure, hre, hr, hm]
    | false => simp [bind, Except.bind, hre, hm, ih]

/-- Without negated or malformed rules, a path is ignored when some rule matches it. -/
theorem ignores_eq_any {rules : List IgnoreRule} {path : List Char}
    (hn : ∀ r ∈ rules, r.negated = false) (he : ∀ r ∈ rules, r.expression.isSome = true) :
    ignores rules path = .ok (rules.any fun r => r.expression.any (·.matchesPart path)) := by
  have : rules.any (·.negated) = false := by simpa using hn
  rw [ignores, checkOrder, this]
  exact firstDecides_eq_any hn he

end IgnoreRules

end CallAlign
