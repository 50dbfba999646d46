import CallAlign.Glob

/-!
# Patterns of ignore files

A pattern is tied to the directory of its file when a slash stands inside it, and names only
directories when it ends in one.  In its body `*` stands for characters of one name, `?` for one of
them, `**` between slashes for any names, and `[seq]` for one of a set.  The meaning of a body is a
regular expression over paths, written as text.

    length_trimSpaces : trimming makes nothing longer
-/

namespace CallAlign

/-- A pattern taken apart. -/
structure IgnorePattern where
  anchored : Bool
  directoryOnly : Bool
  body : List Char
  deriving DecidableEq, Repr

namespace IgnorePattern

/-! ## Stars -/

/-- A run of stars: two of them when it has more than one and stands alone between slashes. -/
def starRun (slashBefore : Bool) (count : Nat) (slashAfter : Bool) : List Char :=
  if count = 0 then []
  else if 2 ≤ count && slashBefore && slashAfter then ['*', '*']
  else ['*']

/-- A text with its runs of stars made short.  `slashBefore` is whether the text, or a slash, begins
before the `count` stars that were just read; both ends of a text count as slashes. -/
def shortenStars (slashBefore : Bool) (count : Nat) : List Char → List Char
  | [] => starRun slashBefore count true
  | c :: cs =>
    if c = '*' then shortenStars slashBefore (count + 1) cs
    else starRun slashBefore count (c == '/') ++ c :: shortenStars (c == '/') 0 cs

/-! ## Taking a pattern apart -/

def nonempty? (cs : List Char) : Option (List Char) := if cs.isEmpty then none else some cs

def dropSlash : List Char → List Char
  | '/' :: cs => cs
  | cs => cs

def dropFinalSlash (cs : List Char) : List Char :=
  if cs.getLast? = some '/' then cs.dropLast else cs

/-- A backslash before a leading `#` or `!` is dropped; it may not stand alone. -/
def dropBackslash? : List Char → Option (List Char)
  | ['\\'] => none
  | '\\' :: c :: cs => some (if c = '#' || c = '!' then c :: cs else '\\' :: c :: cs)
  | cs => some cs

/-- A reversed text without the spaces at its front, as long as `trim` holds.  A space with a
backslash behind it stays, the backslash goes, and no more spaces are taken off.  The last two
characters are left alone. -/
def trimFront (trim : Bool) : List Char → List Char
  | ' ' :: '\\' :: c :: cs => ' ' :: trimFront false (c :: cs)
  | ' ' :: b :: c :: cs =>
    if trim then trimFront true (b :: c :: cs) else ' ' :: trimFront false (b :: c :: cs)
  | cs => cs

/-- A text without the spaces at its end that no backslash holds. -/
def trimSpaces (cs : List Char) : List Char := (trimFront true cs.reverse).reverse

/-- The pattern of a text, `none` when a step finds nothing left to look at. -/
def ofText? (cs : List Char) : Option IgnorePattern := do
  let cs ← nonempty? cs
  let directoryOnly := cs.getLast? == some '/'
  let slashInside := cs.dropLast.contains '/'
  let cs ← nonempty? (dropSlash cs)
  let anywhere := ['*', '*'].isPrefixOf cs
  let cs ← nonempty? (if anywhere then cs.drop 2 else cs)
  let cs ← nonempty? (dropSlash cs)
  let cs ← nonempty? (dropFinalSlash cs)
  let body ← dropBackslash? cs
  some { anchored := slashInside && !anywhere, directoryOnly, body := trimSpaces body }

/-! ## Regular expressions -/

def specialChars : List Char := "()[]\x7b\x7d?*+-|^$\\.&~# \t\n\r\x0b\x0c".toList

/-- A character that stands for itself. -/
def literalText (c : Char) : List Char := if specialChars.contains c then ['\\', c] else [c]

/-- A set of characters; slashes are left out of it, and nothing may not be left. -/
def setText? (body : List Char) : Option (List Char) :=
  let escaped := (body.filter (· != '/')).flatMap fun c => if c = '\\' then ['\\', '\\'] else [c]
  match escaped with
  | [] => none
  | '!' :: cs => some ('[' :: '^' :: cs ++ [']'])
  | '^' :: cs => some ('[' :: '\\' :: '^' :: cs ++ [']'])
  | cs => some ('[' :: cs ++ [']'])

def slashText : List Char := "[/]".toList

def nameCharText : List Char := "[^/]".toList

/-- The expression of a body, `none` when it has a set that is empty. -/
def bodyText? (cs : List Char) : Option (List Char) :=
  match cs with
  | [] => some []
  | '*' :: '*' :: '/' :: rest => (bodyText? rest).map ("(.*[/])?".toList ++ ·)
  | '*' :: '*' :: rest => (bodyText? rest).map (".*".toList ++ ·)
  | '*' :: rest => (bodyText? rest).map (nameCharText ++ '*' :: ·)
  | '?' :: rest => (bodyText? rest).map (nameCharText ++ ·)
  | '/' :: rest => (bodyText? rest).map (slashText ++ ·)
  | '[' :: rest =>
    match h : bracket? rest with
    | some (set, after) =>
      have := length_of_bracket? h
      match setText? set with
      | some text => (bodyText? after).map (text ++ ·)
      | none => none
    | none => (bodyText? rest).map (literalText '[' ++ ·)
  | c :: rest => (bodyText? rest).map (literalText c ++ ·)
termination_by cs.length

/-- What may stand before a body: the start of the path, or also a slash. -/
def frontText (p : IgnorePattern) : List Char :=
  if p.anchored then ['^'] else "(^|[/])".toList

/-- What may stand behind it: a name is matched whole, a directory also with what is in it.  Paths
have no slash at the end, so a negated directory matches none. -/
def backText (p : IgnorePattern) (negated : Bool) : List Char :=
  if !p.directoryOnly then ['$'] else if negated then "/$".toList else "($|\\/)".toList

/-- The regular expression of a pattern, as text. -/
def regexText? (p : IgnorePattern) (negated : Bool) : Option (List Char) :=
  (bodyText? p.body).map fun body => p.frontText ++ body ++ p.backText negated

/-! ## Lemmas -/

theorem length_trimFront (trim : Bool) (cs : List Char) :
    (trimFront trim cs).length ≤ cs.length := by
  fun_induction trimFront trim cs <;> simp_all <;> omega

theorem length_trimSpaces (cs : List Char) : (trimSpaces cs).length ≤ cs.length := by
  simpa [trimSpaces] using length_trimFront true cs.reverse

end IgnorePattern

end CallAlign
