import CallAlign.Log
import CallAlign.Position
import CallAlign.SourceLines
import CallAlign.SyntaxTree
import CallAlign.Utf8

/-!
# Source files and their trees

A parser counts rows and bytes; a checker counts lines and characters.  `RowTable.position` takes
the one to the other: the column of a byte is the number of characters that the bytes before it on
its row decode to.  `Source` is a text with the tree a parser found for it, read in characters.

    Source.ofBytes parse bytes   a file
    Source.ofText parse text     a text already decoded, which the parser sees as UTF-8

A tree may hold syntax errors.  Strict parsing refuses such a source (`Source.strict`), other
parsing logs it (`Source.log`).
-/

namespace CallAlign

/-! ## What a parser gives -/

/-- A place in a file as a parser counts it: rows and bytes within the row, both from zero. -/
structure Point where
  row : Nat
  byte : Nat
  deriving DecidableEq, Repr, Inhabited

/-- The bytes of a node: from its first one to just after its last one. -/
structure ByteRange where
  start : Point
  stop : Point
  deriving DecidableEq, Repr, Inhabited

/-- A tree over the bytes of a file, and whether the parser met errors in it. -/
structure Parse where
  root : SyntaxTree ByteRange
  hasError : Bool

/-- A grammar, as the trees it gives for all files. -/
abbrev Parser := List UInt8 → Parse

/-! ## Rows and columns -/

/-- The rows of a file, without their line feeds. -/
structure RowTable where
  rows : List (List UInt8)
  ascii : Bool
  deriving DecidableEq, Repr

namespace RowTable

def ofBytes (bytes : List UInt8) : RowTable :=
  { rows := bytes.splitOn 0x0A, ascii := bytes.all (· < 0x80) }

/-- The line and character column of a point.  In a pure ASCII file, and below its last row, bytes
and characters are the same. -/
def position (t : RowTable) (p : Point) : Position :=
  match t.ascii, t.rows[p.row]? with
  | false, some row => ⟨p.row + 1, (Utf8.decode (row.take p.byte)).length⟩
  | _, _ => ⟨p.row + 1, p.byte⟩

def span (t : RowTable) (r : ByteRange) : Span := ⟨t.position r.start, t.position r.stop⟩

/-- The rows up to a point. -/
def before (rows : List (List UInt8)) (p : Point) : List (List UInt8) :=
  rows.take p.row ++ (rows[p.row]?.map (·.take p.byte)).toList

/-- The bytes of a node, with the line feeds between its rows. -/
def bytesIn (t : RowTable) (r : ByteRange) : List UInt8 :=
  [0x0A].intercalate (((before t.rows r.stop).drop r.start.row).modifyHead (·.drop r.start.byte))

/-- The text of a node. -/
def text (t : RowTable) (r : ByteRange) : String := String.ofList (Utf8.decode (t.bytesIn r))

end RowTable

/-! ## Trees in characters -/

/-- A node as a checker sees it: its extent and its text. -/
structure Extent where
  span : Span
  text : String
  deriving DecidableEq, Repr

/-- A parser's tree with the positions and the texts of its nodes. -/
def RowTable.read (t : RowTable) (tree : SyntaxTree ByteRange) : SyntaxTree Extent :=
  tree.map fun r => { span := t.span r, text := t.text r }

/-- A parsed text: the tree, the lines, and whether the parser met errors. -/
structure Source where
  root : SyntaxTree Extent
  lines : SourceLines
  hasError : Bool

namespace Source

/-- Parses the bytes of a file; what is no UTF-8 in them reads as U+FFFD. -/
def ofBytes (parse : Parser) (bytes : List UInt8) : Source :=
  let parsed := parse bytes
  { root := (RowTable.ofBytes bytes).read parsed.root
    lines := .ofText (Utf8.decode bytes)
    hasError := parsed.hasError }

/-- Parses a text; the parser gets its UTF-8 bytes. -/
def ofText (parse : Parser) (text : List Char) : Source :=
  let bytes := Utf8.encode text
  let parsed := parse bytes
  { root := (RowTable.ofBytes bytes).read parsed.root
    lines := .ofText text
    hasError := parsed.hasError }

end Source

/-! ## Syntax errors -/

/-- Why strict parsing refuses a source. -/
inductive ParseError where
  | malformed
  deriving DecidableEq, Repr

def ParseError.message : ParseError → String
  | malformed => "Ruby source contains syntax errors"

namespace Source

/-- The source when it is parsed strictly. -/
def strict (source : Source) : Except ParseError Source :=
  if source.hasError then .error .malformed else .ok source

theorem eq_of_strict_eq_ok {source clean : Source} (h : source.strict = .ok clean) :
    clean = source := by
  unfold strict at h
  split at h
  · cases h
  · cases h
    rfl

def malformedRecord : LogRecord :=
  { level := .debug, logger := "parse.treesitter_ruby",
    message := "Parsed Ruby source with syntax errors" }

/-- What is logged when the source is not parsed strictly. -/
def log (source : Source) : List LogRecord := if source.hasError then [malformedRecord] else []

end Source

end CallAlign
