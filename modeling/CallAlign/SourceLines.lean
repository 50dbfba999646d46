/-!
# Source lines

The lines of one text, and the numbers of those whose indentation holds a tab.  Lines end at line
feeds only, which is how a parser numbers its rows; a carriage return at the end of a line is not
part of it.

    mem_tabIndented_ofText : n is in the set exactly when row n exists and its indentation has a tab
-/

namespace CallAlign

/-- The lines of a text, and the numbers (from one) of the lines indented with a tab. -/
structure SourceLines where
  lines : List String
  tabIndented : List Int
  deriving DecidableEq, Repr

namespace SourceLines

/-- A line without the carriage return at its end. -/
def dropReturn (row : List Char) : List Char :=
  if row.getLast? = some '\r' then row.dropLast else row

/-- Indentation is a run of spaces and tabs. -/
def isIndent (c : Char) : Bool := c == ' ' || c == '\t'

/-- The indentation of a line holds a tab. -/
def tabInIndent (row : List Char) : Bool := (row.takeWhile isIndent).contains '\t'

/-- The rows of a text, each with its number from one. -/
def numbered (rows : List (List Char)) : List (List Char × Int) :=
  rows.zipIdx.map fun entry => (entry.1, (entry.2 : Int) + 1)

/-- The lines of a text. -/
def ofText (text : List Char) : SourceLines :=
  let rows := (text.splitOn '\n').map dropReturn
  { lines := rows.map String.ofList
    tabIndented := ((numbered rows).filter fun entry => tabInIndent entry.1).map (·.2) }

/-- The number of lines, at least one. -/
def length (s : SourceLines) : Nat := s.lines.length

/-- Line `n`, counted from one; empty outside the text. -/
def line (s : SourceLines) (n : Int) : String :=
  if 1 ≤ n then (s.lines[(n - 1).toNat]?).getD "" else ""

/-- The indentation of line `n` holds a tab. -/
def isTabIndented (s : SourceLines) (n : Int) : Bool := s.tabIndented.contains n

/-- Some line from `first` to `last` is tab-indented. -/
def anyTabIndented (s : SourceLines) (first last : Int) : Bool :=
  s.tabIndented.any fun n => first ≤ n && n ≤ last

/-! ## Lemmas -/

/-- The carriage return that a line loses is not part of its indentation. -/
theorem tabInIndent_dropReturn (row : List Char) :
    tabInIndent (dropReturn row) = tabInIndent row := by
  unfold dropReturn
  split
  · next h =>
    obtain ⟨ys, rfl⟩ := List.getLast?_eq_some_iff.1 h
    rw [List.dropLast_concat]
    unfold tabInIndent
    rw [List.takeWhile_append]
    split
    · next hall =>
      have hr : ['\r'].takeWhile isIndent = [] := by decide
      simp [hr, (List.takeWhile_prefix isIndent).eq_of_length hall]
    · rfl
  · rfl

theorem mem_numbered (rows : List (List Char)) (row : List Char) (n : Int) :
    (row, n) ∈ numbered rows ↔ 1 ≤ n ∧ rows[(n - 1).toNat]? = some row := by
  simp only [numbered, List.mem_map, Prod.mk.injEq, Prod.exists, List.mem_zipIdx_iff_getElem?]
  constructor
  · rintro ⟨_, i, hi, rfl, rfl⟩
    refine ⟨by omega, ?_⟩
    rwa [show ((i : Int) + 1 - 1).toNat = i by omega]
  · rintro ⟨h1, hrow⟩
    exact ⟨row, (n - 1).toNat, hrow, rfl, by omega⟩

/-- A line is tab-indented when the row it comes from has a tab in its indentation. -/
theorem mem_tabIndented_ofText (text : List Char) (n : Int) :
    n ∈ (ofText text).tabIndented ↔
      1 ≤ n ∧ ∃ row, (text.splitOn '\n')[(n - 1).toNat]? = some row ∧ tabInIndent row = true := by
  simp only [ofText, List.mem_map, List.mem_filter, Prod.exists, exists_eq_right, mem_numbered,
    List.getElem?_map, Option.map_eq_some_iff]
  constructor
  · rintro ⟨row, ⟨h1, raw, hraw, rfl⟩, ht⟩
    exact ⟨h1, raw, hraw, by rwa [tabInIndent_dropReturn] at ht⟩
  · rintro ⟨h1, raw, hraw, ht⟩
    exact ⟨dropReturn raw, ⟨h1, raw, hraw, rfl⟩, by rwa [tabInIndent_dropReturn]⟩

end SourceLines

end CallAlign
