import CallAlign.CommandLine

/-!
# Snapshots of a world

A world as lines of text, which a front end writes: it lists the files, and it has a grammar parse
those that are sources.  The fields of a line stand between tabs, and in a name a backslash is
written before a backslash, `t` for a tab and `n` for a line feed.

    current PATH              the directory that relative paths begin in
    home PATH                 the home directory
    directory PATH
    link PATH TARGET
    file PATH BYTES           bytes in hexadecimal; without them, a file that may not be read
    tree ERRORS               the tree of the last file; ERRORS is `yes` or `no`
    node DEPTH FIELD KIND ROW BYTE ROW BYTE
                              a node of the last tree, in pre-order; FIELD may be empty
-/

namespace CallAlign.CommandLine.Snapshot

/-! ## Lines -/

inductive Record where
  | current (path : Path)
  | home (path : Path)
  | entry (path : Path) (e : Entry)
  | tree (hasError : Bool)
  | node (row : SyntaxTree.Row ByteRange)

/-- A name with its escapes undone. -/
def unescape : List Char → List Char
  | '\\' :: 't' :: cs => '\t' :: unescape cs
  | '\\' :: 'n' :: cs => '\n' :: unescape cs
  | '\\' :: c :: cs => c :: unescape cs
  | c :: cs => c :: unescape cs
  | [] => []

def bytes? : List Char → Option (List UInt8)
  | [] => some []
  | a :: b :: cs =>
    if Text.isHexDigit a && Text.isHexDigit b then
      (bytes? cs).map (UInt8.ofNat (Text.numberIn 16 [a, b]) :: ·)
    else none
  | [_] => none

/-- The record of a line, `none` when it has another form. -/
def Record.ofLine? (line : List Char) : Option Record :=
  let fields := (line.splitOn '\t').map fun field => String.ofList (unescape field)
  match fields with
  | ["current", path] => some (.current (.ofText path))
  | ["home", path] => some (.home (.ofText path))
  | ["directory", path] => some (.entry (.ofText path) (.directory []))
  | ["link", path, target] => some (.entry (.ofText path) (.link (.ofText target)))
  | ["file", path] => some (.entry (.ofText path) (.file none))
  | ["file", path, hex] =>
    (bytes? hex.toList).map fun bytes => .entry (.ofText path) (.file (some bytes))
  | ["tree", errors] => some (.tree (errors == "yes"))
  | ["node", depth, field, kind, row, byte, endRow, endByte] => do
    let start : Point := ⟨← row.toNat?, ← byte.toNat?⟩
    let stop : Point := ⟨← endRow.toNat?, ← endByte.toNat?⟩
    some (.node
      { depth := ← depth.toNat?
        field := if field.isEmpty then none else some field
        kind := kind
        label := ⟨start, stop⟩ })
  | _ => none

/-! ## Reading -/

/-- A tree that is being read: the bytes it belongs to and its rows, backwards. -/
structure OpenTree where
  bytes : List UInt8
  hasError : Bool
  rows : List (SyntaxTree.Row ByteRange)

/-- What has been read so far; the last tree is the first of the list. -/
structure Reading where
  root : Entry
  current : Path
  home : Path
  lastBytes : List UInt8
  trees : List OpenTree

def Reading.empty : Reading :=
  { root := .directory [], current := [], home := [], lastBytes := [], trees := [] }

def Reading.add (r : Reading) : Record → Reading
  | .current path => { r with current := path }
  | .home path => { r with home := path }
  | .entry path (.file (some bytes)) =>
    { r with root := r.root.insert path (.file (some bytes)), lastBytes := bytes }
  | .entry path e => { r with root := r.root.insert path e }
  | .tree hasError => { r with trees := { bytes := r.lastBytes, hasError, rows := [] } :: r.trees }
  | .node row =>
    match r.trees with
    | [] => r
    | t :: rest => { r with trees := { t with rows := row :: t.rows } :: rest }

/-- The tree of a source for which no other is given. -/
def emptyParse : Parse :=
  { root := .node "program" ⟨⟨0, 0⟩, ⟨0, 0⟩⟩ [] [], hasError := false }

/-- The grammar that gives each source the tree that was read for it. -/
def parserOf (trees : List OpenTree) : Parser := fun bytes =>
  match trees.find? (·.bytes == bytes) with
  | some t =>
    match SyntaxTree.ofRows? t.rows.reverse with
    | some root => { root, hasError := t.hasError }
    | none => { emptyParse with hasError := t.hasError }
  | none => emptyParse

/-- The world that a text writes; lines of another form do not count. -/
def read (text : String) : World :=
  let records := (text.toList.splitOn '\n').filterMap Record.ofLine?
  let r := records.foldl Reading.add .empty
  { files := ⟨r.root⟩, current := r.current, home := r.home, parse := parserOf r.trees,
    details := ConfigError.details }

end CallAlign.CommandLine.Snapshot
