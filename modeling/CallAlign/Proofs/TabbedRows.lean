import CallAlign.SourceLines
import Mathlib.Data.Int.Range

/-!
# Rows led by tabs

The tab-indented lines of a text are found once, and all later questions are answered from their
numbers.  One pass numbers the lines, which have lost their carriage returns by then, takes as many
characters from the front of each as there are spaces and tabs to take away, and keeps the number of
the line if a tab is among them (`TabPass.step`).  The text itself needs no pass: a row of it, with
its carriage return, is led by a tab or not (`TabLed`).

    HasRead.foldl     : what a pass has found after any lines
    tabSet_tells_rows : the numbers that are kept, and the answers for a line and for a range of
                        lines, told by the rows of the text
-/

namespace CallAlign

namespace SourceLines

/-! ## Rows of the text -/

/-- A tab stands before the first character of the row that is neither a space nor a tab, or
anywhere if there is no such character. -/
def TabLed (row : List Char) : Prop :=
  ∃ i : Nat, row[i]? = some '\t' ∧ ∀ (j : Nat) (c : Char), row[j]? = some c →
    c ≠ ' ' → c ≠ '\t' → i < j

/-- There is a row `n`, counted from one, and it is led by a tab. -/
def TabLedAt (rows : List (List Char)) (n : Int) : Prop :=
  1 ≤ n ∧ n ≤ rows.length ∧ ∃ row, rows[(n - 1).toNat]? = some row ∧ TabLed row

theorem not_tabLed_nil : ¬ TabLed [] := by
  rintro ⟨i, htab, -⟩
  simp at htab

theorem tabLed_cons_iff (c : Char) (row : List Char) :
    TabLed (c :: row) ↔ c = '\t' ∨ c = ' ' ∧ TabLed row := by
  constructor
  · rintro ⟨i, htab, hbefore⟩
    cases i with
    | zero => exact .inl (by simpa using htab)
    | succ i =>
      -- the tab stands further back, and nothing but a space or a tab may stand before it
      by_cases hc : c = '\t'
      · exact .inl hc
      · have hspace : c = ' ' := by
          by_contra hspace
          exact Nat.not_lt_zero _ (hbefore 0 c rfl hspace hc)
        refine .inr ⟨hspace, i, by simpa using htab, fun j d hd hd' hother => ?_⟩
        exact Nat.lt_of_succ_lt_succ (hbefore (j + 1) d (by simpa using hd) hd' hother)
  · rintro (rfl | ⟨rfl, i, htab, hbefore⟩)
    · refine ⟨0, rfl, fun j d hd _ hother => ?_⟩
      cases j with
      | zero => exact absurd (by simpa using hd.symm) hother
      | succ j => exact Nat.succ_pos j
    · refine ⟨i + 1, by simpa using htab, fun j d hd hspace hother => ?_⟩
      cases j with
      | zero => exact absurd (by simpa using hd.symm) hspace
      | succ j => exact Nat.succ_lt_succ (hbefore j d (by simpa using hd) hspace hother)

theorem tabInIndent_eq_true_iff (row : List Char) : tabInIndent row = true ↔ TabLed row := by
  induction row with
  | nil => exact iff_of_false (by decide) not_tabLed_nil
  | cons c row ih =>
    rw [tabLed_cons_iff, ← ih]
    unfold tabInIndent
    by_cases htab : c = '\t'
    · simp [htab, isIndent]
    · by_cases hspace : c = ' '
      · simp [hspace, isIndent]
      · simp [htab, hspace, isIndent]

theorem mem_tabIndented_iff (text : List Char) (n : Int) :
    n ∈ (ofText text).tabIndented ↔ TabLedAt (text.splitOn '\n') n := by
  rw [mem_tabIndented_ofText]
  refine and_congr_right fun hfirst => ?_
  constructor
  · rintro ⟨row, hrow, htab⟩
    have hlast := (List.getElem?_eq_some_iff.1 hrow).1
    exact ⟨by omega, row, hrow, (tabInIndent_eq_true_iff row).1 htab⟩
  · rintro ⟨-, row, hrow, htab⟩
    exact ⟨row, hrow, (tabInIndent_eq_true_iff row).2 htab⟩

/-! ## The pass over the lines -/

/-- The front of a line, as long as what the line loses with the spaces and tabs in front. -/
def indentation (line : List Char) : List Char :=
  line.take (line.length - (line.dropWhile isIndent).length)

/-- What a pass over lines keeps: the number of the next line, and the numbers found so far. -/
structure TabPass where
  number : Int
  found : List Int

/-- The pass before the first line. -/
def TabPass.start : TabPass := { number := 1, found := [] }

/-- The pass goes on by one line. -/
def TabPass.step (p : TabPass) (line : List Char) : TabPass :=
  { number := p.number + 1
    found := if (indentation line).contains '\t' then p.found ++ [p.number] else p.found }

/-- The numbers that a pass over all the lines finds. -/
def passTabs (lines : List (List Char)) : List Int := (lines.foldl TabPass.step .start).found

theorem indentation_eq_takeWhile (line : List Char) :
    indentation line = line.takeWhile isIndent := by
  have hlength : line.length - (line.dropWhile isIndent).length =
      (line.takeWhile isIndent).length := by
    have hsplit := congrArg List.length (line.takeWhile_append_dropWhile (p := isIndent))
    rw [List.length_append] at hsplit
    omega
  unfold indentation
  rw [hlength]
  exact (List.prefix_iff_eq_take.1 (List.takeWhile_prefix isIndent)).symm

theorem numbered_concat (lines : List (List Char)) (line : List Char) :
    numbered (lines ++ [line]) = numbered lines ++ [(line, (lines.length : Int) + 1)] := by
  simp [numbered, List.zipIdx_append]

/-- The pass has read these lines and no others. -/
structure TabPass.HasRead (p : TabPass) (lines : List (List Char)) : Prop where
  number_eq : p.number = lines.length + 1
  found_eq : p.found = ((numbered lines).filter fun entry => tabInIndent entry.1).map (·.2)

theorem TabPass.hasRead_start : start.HasRead [] := ⟨rfl, rfl⟩

theorem TabPass.HasRead.step {p : TabPass} {lines : List (List Char)} (h : p.HasRead lines)
    (line : List Char) : (p.step line).HasRead (lines ++ [line]) := by
  constructor
  · show p.number + 1 = _
    rw [h.number_eq, List.length_append, List.length_singleton]
    omega
  · have hline : (indentation line).contains '\t' = tabInIndent line := by
      rw [indentation_eq_takeWhile, tabInIndent]
    unfold TabPass.step
    rw [hline, h.found_eq, h.number_eq, numbered_concat, List.filter_append, List.map_append]
    cases htab : tabInIndent line <;> simp [htab]

theorem TabPass.HasRead.foldl {p : TabPass} {before : List (List Char)} (h : p.HasRead before)
    (lines : List (List Char)) : (lines.foldl TabPass.step p).HasRead (before ++ lines) := by
  -- by induction on what is left, for every pass that has read the lines before it
  induction lines generalizing p before with
  | nil => rwa [List.append_nil]
  | cons line lines ih =>
    rw [List.foldl_cons, List.append_cons]
    exact ih (h.step line)

theorem tabIndented_eq_passTabs (text : List Char) :
    (ofText text).tabIndented = passTabs ((text.splitOn '\n').map dropReturn) :=
  (TabPass.hasRead_start.foldl _).found_eq.symm

/-! ## Ranges of lines -/

/-- Some number from `first` to `last` is kept when one of them, asked for in turn, is. -/
theorem anyTabIndented_eq_any_range (lines : SourceLines) (first last : Int) :
    lines.anyTabIndented first last =
      (Int.range first (last + 1)).any lines.isTabIndented := by
  unfold anyTabIndented isTabIndented
  rw [Bool.eq_iff_iff, List.any_eq_true, List.any_eq_true]
  refine exists_congr fun n => ?_
  rw [Int.mem_range_iff, List.contains_iff_mem, Bool.and_eq_true, decide_eq_true_eq,
    decide_eq_true_eq, Int.lt_add_one_iff]
  exact and_comm

/-! ## Top theorem -/

/-- One pass over the lines finds the numbers that are kept.  A number, whichever it is, is one of
them when it is that of a row led by a tab; a range of numbers, whatever its ends are, holds one of
them when it holds the number of such a row. -/
theorem tabSet_tells_rows (text : List Char) :
    (ofText text).tabIndented = passTabs ((text.splitOn '\n').map dropReturn) ∧
      (∀ n : Int, (ofText text).isTabIndented n = true ↔ TabLedAt (text.splitOn '\n') n) ∧
      ∀ first last : Int, (ofText text).anyTabIndented first last = true ↔
        ∃ n, first ≤ n ∧ n ≤ last ∧ TabLedAt (text.splitOn '\n') n := by
  have hone : ∀ n : Int,
      (ofText text).isTabIndented n = true ↔ TabLedAt (text.splitOn '\n') n := by
    intro n
    unfold isTabIndented
    rw [List.contains_iff_mem, mem_tabIndented_iff]
  refine ⟨tabIndented_eq_passTabs text, hone, fun first last => ?_⟩
  rw [anyTabIndented_eq_any_range, List.any_eq_true]
  refine exists_congr fun n => ?_
  rw [Int.mem_range_iff, Int.lt_add_one_iff, hone, and_assoc]

/-- Lines that are only a tab, that begin with a carriage return, that are empty, and the last. -/
example : [-1, 0, 1, 2, 3, 4, 5].map (ofText "\t\r\n \r\t\n\n \t".toList).isTabIndented =
    [false, false, true, false, false, true, false] := by decide

end SourceLines

end CallAlign
