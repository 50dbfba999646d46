import CallAlign.Toml.Scalar

/-!
# TOML documents

A document is read statement by statement into a table.  What TOML forbids beyond its grammar is
kept in three lists of keys:

- `closed`: inline tables and arrays, to which nothing may be added at any depth;
- `declared`: tables with a header of their own, which has to be the only one;
- `dotted`: tables opened by a dotted key, which count as declared from the next header on.

The readers take fuel; a document has enough with twice its length.
-/

namespace CallAlign.Toml

abbrev Key := List String

abbrev Entries := List (String × Value)

/-! ## Tables under construction -/

/-- The entries with the value of a key replaced. -/
def replaced (entries : Entries) (key : String) (v : Value) : Entries :=
  entries.map fun e => if e.1 = key then (key, v) else e

/-- Changes the table that a path leads to.  Tables on the way that do not exist are made;
`throughLists` is whether a list leads on to its last table. -/
def updateAt? (throughLists : Bool) (change : Entries → Option Entries) :
    Key → Entries → Option Entries
  | [], entries => change entries
  | k :: path, entries =>
    match entries.lookup k with
    | none => (updateAt? throughLists change path []).map fun sub => entries ++ [(k, .table sub)]
    | some (.table sub) =>
      (updateAt? throughLists change path sub).map fun sub => replaced entries k (.table sub)
    | some (.list items) =>
      match throughLists, items.getLast? with
      | true, some (.table sub) =>
        (updateAt? throughLists change path sub).map fun sub =>
          replaced entries k (.list (items.dropLast ++ [.table sub]))
      | _, _ => none
    | some _ => none

/-- Adds an entry; a key is set once. -/
def insertNew? (key : String) (v : Value) (entries : Entries) : Option Entries :=
  match entries.lookup key with
  | some _ => none
  | none => some (entries ++ [(key, v)])

/-- Adds an empty table to a list of tables. -/
def addTable? (key : String) (entries : Entries) : Option Entries :=
  match entries.lookup key with
  | none => some (entries ++ [(key, .list [.table []])])
  | some (.list items) => some (replaced entries key (.list (items ++ [.table []])))
  | some _ => none

/-- A key lies at or below one of the closed ones. -/
def isClosed (closed : List Key) (key : Key) : Bool := closed.any (·.isPrefixOf key)

/-- A list or table written in one piece. -/
def isInline : Value → Bool
  | .list _ => true
  | .table _ => true
  | _ => false

/-! ## Keys -/

/-- One part of a key: bare or a quoted string on one line. -/
def keyPart? (cs : List Char) : Option (String × List Char) :=
  match cs with
  | '"' :: rest => (basic? false .text rest).map fun r => (String.ofList r.1, r.2)
  | '\'' :: rest => (literal? rest).map fun r => (String.ofList r.1, r.2)
  | _ =>
    let bare := cs.takeWhile isBareKeyChar
    if bare.isEmpty then none else some (String.ofList bare, cs.drop bare.length)

/-- A key: parts joined by points, with spaces around each. -/
def key? (fuel : Nat) (cs : List Char) : Option (Key × List Char) :=
  match fuel with
  | 0 => none
  | fuel + 1 => do
    let (part, rest) ← keyPart? cs
    match skipSpaces rest with
    | '.' :: rest =>
      let (more, rest) ← key? fuel (skipSpaces rest)
      some (part :: more, rest)
    | rest => some ([part], rest)

/-- A comment up to the end of its line, if one begins here. -/
def skipComment? (cs : List Char) : Option (List Char) :=
  match cs with
  | '#' :: rest =>
    let body := rest.takeWhile (· != '\n')
    if body.any illegalInLine then none else some (rest.drop body.length)
  | _ => some cs

/-- The blanks, line feeds and comments between the entries of an array. -/
def skipArrayBlanks? (fuel : Nat) (cs : List Char) : Option (List Char) :=
  match fuel with
  | 0 => none
  | fuel + 1 =>
    match cs.dropWhile fun c => isSpace c || c == '\n' with
    | '#' :: rest => do skipArrayBlanks? fuel (← skipComment? ('#' :: rest))
    | rest => some rest

/-! ## Values -/

/-- The value of a word, a number, a moment or a string. -/
def scalarValue (cs : List Char) : Except Failure (Value × List Char) :=
  match cs with
  | '"' :: _ => (orMalformed (string? cs)).map fun r => (.str r.1, r.2)
  | '\'' :: _ => (orMalformed (string? cs)).map fun r => (.str r.1, r.2)
  | 't' :: 'r' :: 'u' :: 'e' :: rest => .ok (.bool true, rest)
  | 'f' :: 'a' :: 'l' :: 's' :: 'e' :: rest => .ok (.bool false, rest)
  | _ =>
    match moment? cs with
    | some (m, rest) => (orMalformed m).map fun m => (.moment m, rest)
    | none => number cs

mutual

def value (fuel : Nat) (cs : List Char) : Except Failure (Value × List Char) :=
  match fuel with
  | 0 => .error .malformed
  | fuel + 1 =>
    match cs with
    | '[' :: rest => do
      match ← orMalformed (skipArrayBlanks? fuel rest) with
      | ']' :: rest => .ok (.list [], rest)
      | rest => (items fuel [] rest).map fun r => (.list r.1, r.2)
    | '{' :: rest =>
      match skipSpaces rest with
      | '}' :: rest => .ok (.table [], rest)
      | rest => (members fuel [] [] rest).map fun r => (.table r.1, r.2)
    | _ => scalarValue cs

/-- The entries of an array from one of them to its closing bracket. -/
def items (fuel : Nat) (done : List Value) (cs : List Char) :
    Except Failure (List Value × List Char) :=
  match fuel with
  | 0 => .error .malformed
  | fuel + 1 => do
    let (v, rest) ← value fuel cs
    let done := done ++ [v]
    match ← orMalformed (skipArrayBlanks? fuel rest) with
    | ']' :: rest => .ok (done, rest)
    | ',' :: rest =>
      match ← orMalformed (skipArrayBlanks? fuel rest) with
      | ']' :: rest => .ok (done, rest)
      | rest => items fuel done rest
    | _ => .error .malformed

/-- The members of an inline table from one of them to its closing bracket. -/
def members (fuel : Nat) (closed : List Key) (done : Entries) (cs : List Char) :
    Except Failure (Entries × List Char) :=
  match fuel with
  | 0 => .error .malformed
  | fuel + 1 => do
    let (key, rest) ← orMalformed (key? fuel cs)
    let rest ← orMalformed (after? '=' rest)
    let (v, rest) ← value fuel (skipSpaces rest)
    if isClosed closed key then .error .malformed
    else
      let done ←
        orMalformed (updateAt? false (insertNew? (key.getLastD "") v) key.dropLast done)
      match skipSpaces rest with
      | '}' :: rest => .ok (done, rest)
      | ',' :: rest =>
        members fuel (if isInline v then key :: closed else closed) done (skipSpaces rest)
      | _ => .error .malformed

end

/-! ## Statements -/

structure Document where
  entries : Entries
  header : Key
  closed : List Key
  declared : List Key
  dotted : List Key

namespace Document

def empty : Document := { entries := [], header := [], closed := [], declared := [], dotted := [] }

/-- A new header: the tables opened by dotted keys so far are now declared. -/
def settle (d : Document) : Document := { d with declared := d.dotted ++ d.declared, dotted := [] }

/-- The paths to the tables that a dotted key opens below a header. -/
def opened (header key : Key) : List Key :=
  (List.range (key.length - 1)).map fun i => header ++ key.take (i + 1)

/-- `key = value` under the current header. -/
def assign? (d : Document) (key : Key) (v : Value) : Option Document :=
  let parents := opened d.header key
  let home := d.header ++ key.dropLast
  if parents.any d.declared.contains || isClosed d.closed home then none
  else
    (updateAt? true (insertNew? (key.getLastD "") v) home d.entries).map fun entries =>
      { d with
        entries := entries
        dotted := parents ++ d.dotted
        closed := if isInline v then (d.header ++ key) :: d.closed else d.closed }

/-- `[key]` -/
def openTable? (d : Document) (key : Key) : Option Document :=
  if d.declared.contains key || isClosed d.closed key then none
  else
    (updateAt? true some key d.entries).map fun entries =>
      { d with entries := entries, header := key, declared := key :: d.declared }

/-- `[[key]]`: a new table at the end of a list, about which nothing is declared yet. -/
def openItem? (d : Document) (key : Key) : Option Document :=
  if isClosed d.closed key then none
  else
    (updateAt? true (addTable? (key.getLastD "")) key.dropLast d.entries).map fun entries =>
      { d with
        entries := entries
        header := key
        closed := d.closed.filter (!key.isPrefixOf ·)
        declared := key :: d.declared.filter (!key.isPrefixOf ·) }

/-- `[key]` or `[[key]]`, after the first bracket. -/
def header? (fuel : Nat) (d : Document) (cs : List Char) : Option (Document × List Char) :=
  match cs with
  | '[' :: rest => do
    let (key, rest) ← key? fuel (skipSpaces rest)
    let d ← d.settle.openItem? key
    let rest ← after? ']' rest
    let rest ← after? ']' rest
    some (d, skipSpaces rest)
  | rest => do
    let (key, rest) ← key? fuel (skipSpaces rest)
    let d ← d.settle.openTable? key
    let rest ← after? ']' rest
    some (d, skipSpaces rest)

/-- One statement that is no blank line. -/
def statement (fuel : Nat) (d : Document) (cs : List Char) :
    Except Failure (Document × List Char) :=
  match cs with
  | '#' :: _ => .ok (d, cs)
  | '[' :: rest => orMalformed (d.header? fuel rest)
  | _ => do
    let (key, rest) ← orMalformed (key? fuel cs)
    let rest ← orMalformed (after? '=' rest)
    let (v, rest) ← value fuel (skipSpaces rest)
    let d ← orMalformed (d.assign? key v)
    .ok (d, skipSpaces rest)

/-- The statements up to the end of the document, each on a line of its own. -/
def statements (fuel : Nat) (d : Document) (cs : List Char) : Except Failure Document :=
  match fuel with
  | 0 => .error .malformed
  | fuel + 1 =>
    match skipSpaces cs with
    | [] => .ok d
    | '\n' :: rest => statements fuel d rest
    | cs => do
      let (d, rest) ← statement fuel d cs
      match ← orMalformed (skipComment? rest) with
      | [] => .ok d
      | '\n' :: rest => statements fuel d rest
      | _ => .error .malformed

end Document

/-- Line ends of two characters as one. -/
def joinLineEnds : List Char → List Char
  | '\r' :: '\n' :: rest => '\n' :: joinLineEnds rest
  | c :: rest => c :: joinLineEnds rest
  | [] => []

/-- The table that a document holds. -/
def read (text : List Char) : Except Failure Value :=
  let cs := joinLineEnds text
  (Document.empty.statements (2 * cs.length + 4) cs).map fun d => .table d.entries

end CallAlign.Toml
