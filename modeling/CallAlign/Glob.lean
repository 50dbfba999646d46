import CallAlign.Regex

/-!
# Glob patterns

A pattern matches a whole path, letter case included: `*` stands for any characters, also slashes
and line feeds, `?` for any one, `[seq]` for one of a set and `[!seq]` for one outside it.

- A set ends at the first `]` after its first character; without one the bracket is literal.
- `a-c` is a range; a hyphen that is first or last in a set, or follows a range, is literal.
- An empty range such as `c-a` is dropped.  When this brings a `!` to the front, it negates.
-/

namespace CallAlign

/-! ## Sets in brackets -/

/-- The text of a set that starts after an opening bracket, and what follows its closing one.  A
closing bracket that stands first, after a `!` or not, does not close. -/
def bracket? (cs : List Char) : Option (List Char × List Char) :=
  let lead := match cs with
    | '!' :: ']' :: _ => 2
    | '!' :: _ => 1
    | ']' :: _ => 1
    | _ => 0
  let body := (cs.drop lead).takeWhile (· != ']')
  match cs.drop (lead + body.length) with
  | ']' :: rest => some (cs.take (lead + body.length), rest)
  | _ => none

theorem length_of_bracket? {cs body rest : List Char} (h : bracket? cs = some (body, rest)) :
    rest.length < cs.length := by
  unfold bracket? at h
  simp only at h
  split at h
  · next hdrop =>
    cases h
    have := congrArg List.length hdrop
    simp only [List.length_drop, List.length_cons] at this
    omega
  · cases h

namespace Glob

/-- The ranges of a set, a single character being a range of its own. -/
def ranges : List Char → List (Char × Char)
  | a :: '-' :: b :: rest => (a, b) :: ranges rest
  | c :: rest => (c, c) :: ranges rest
  | [] => []

def isRange (r : Char × Char) : Bool := r.1.toNat ≤ r.2.toNat

/-- The set that the text between brackets names. -/
def setOf (body : List Char) : CharSet :=
  match body with
  | '!' :: rest => { negated := true, ranges := (ranges rest).filter isRange }
  | _ =>
    match (ranges body).filter isRange with
    | ('!', '!') :: rest => { negated := true, ranges := rest }
    | ('!', b) :: rest => { negated := true, ranges := ('-', '-') :: (b, b) :: rest }
    | rs => { negated := false, ranges := rs }

/-- The expression that a pattern stands for. -/
def regex (pattern : List Char) : Regex :=
  match pattern with
  | [] => .empty
  | '*' :: rest => .seq (.many .all) (regex rest)
  | '?' :: rest => .seq (.one .all) (regex rest)
  | '[' :: rest =>
    match h : bracket? rest with
    | some (body, after) =>
      have := length_of_bracket? h
      .seq (.one (setOf body)) (regex after)
    | none => .seq (.one (.single '[')) (regex rest)
  | c :: rest => .seq (.one (.single c)) (regex rest)
termination_by pattern.length

end Glob

/-- A path matches a pattern as a whole. -/
def globMatches (pattern path : String) : Bool :=
  (Glob.regex pattern.toList).matchesAll path.toList

end CallAlign
