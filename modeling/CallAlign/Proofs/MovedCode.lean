import CallAlign.Proofs.DecodedRows
import CallAlign.Proofs.ObservedLayout

/-!
# Moved code

Code moves when lines are put above it (`below`) or when all its lines are indented with spaces
(`indented`).  Its rows are then rows of the new text, further down and with the spaces in front
(`splitOn_below_indented`), so that a line has a tab in its indentation where it had one before.
The tree moves along, and so do the offenses, in the same order (`inspect_moved`).
-/

namespace CallAlign

/-- The text with lines above it, each ended by a line feed. -/
def below (above : List (List Char)) (text : List Char) : List Char :=
  above.flatMap (· ++ ['\n']) ++ text

/-- The text with `c` spaces in front of every line. -/
def indented (c : Nat) (text : List Char) : List Char :=
  ['\n'].intercalate ((text.splitOn '\n').map (List.replicate c ' ' ++ ·))

/-- The extent of a node that moved; its text is kept. -/
def Extent.shift (k c : Int) (e : Extent) : Extent := { e with span := e.span.shift k c }

theorem SyntaxTree.map_id {α : Type} (t : SyntaxTree α) : t.map id = t := by
  induction t using induction_on_children with
  | node t ih =>
    cases t with
    | node kind label fields children =>
      have hchildren : children.map (map id) = children :=
        (List.map_congr_left ih).trans (List.map_id children)
      rw [map, mapAll_eq_map, hchildren, id]

/-! ## Rows -/

theorem splitOn_below {above : List (List Char)} (habove : ∀ line ∈ above, '\n' ∉ line)
    (text : List Char) : (below above text).splitOn '\n' = above ++ text.splitOn '\n' :=
  splitOn_flatMap_append habove text

theorem splitOn_indented (c : Nat) (text : List Char) :
    (indented c text).splitOn '\n' = (text.splitOn '\n').map (List.replicate c ' ' ++ ·) := by
  apply List.splitOn_intercalate
  · intro line hline
    obtain ⟨row, hrow, rfl⟩ := List.mem_map.1 hline
    have hfeed := (subset_of_mem_splitOn row hrow).2
    simp [hfeed]
  · simp [List.splitOn_ne_nil]

theorem splitOn_below_indented {above : List (List Char)} (habove : ∀ line ∈ above, '\n' ∉ line)
    (c : Nat) (text : List Char) :
    (below above (indented c text)).splitOn '\n' =
      above ++ (text.splitOn '\n').map (List.replicate c ' ' ++ ·) := by
  rw [splitOn_below habove, splitOn_indented]

namespace SourceLines

/-- Spaces in front of a line are part of its indentation and no tabs. -/
theorem tabInIndent_spaces_append (c : Nat) (row : List Char) :
    tabInIndent (List.replicate c ' ' ++ row) = tabInIndent row := by
  induction c with
  | zero => rfl
  | succ c ih =>
    rw [List.replicate_succ, List.cons_append, ← ih]
    simp [tabInIndent, isIndent]

/-- A line that moved has a tab in its indentation when it had one before, whatever the lines above
it hold. -/
theorem isTabIndented_moved {above : List (List Char)} (habove : ∀ line ∈ above, '\n' ∉ line)
    (c : Nat) (text : List Char) {n : Int} (hn : 1 ≤ n) :
    (ofText (below above (indented c text))).isTabIndented (n + above.length) =
      (ofText text).isTabIndented n := by
  have hindex : (n + above.length - 1).toNat = above.length + (n - 1).toNat := by omega
  have hrow : ((below above (indented c text)).splitOn '\n')[(n + above.length - 1).toNat]? =
      ((text.splitOn '\n')[(n - 1).toNat]?).map (List.replicate c ' ' ++ ·) := by
    rw [splitOn_below_indented habove, hindex, List.getElem?_append_right (by omega),
      Nat.add_sub_cancel_left, List.getElem?_map]
  have hpos : 1 ≤ n + above.length := by omega
  unfold isTabIndented
  rw [Bool.eq_iff_iff, List.contains_iff_mem, List.contains_iff_mem, mem_tabIndented_ofText,
    mem_tabIndented_ofText, hrow]
  simp [tabInIndent_spaces_append, hn, hpos]

end SourceLines

/-! ## Top theorem -/

/-- When lines are put above a text and spaces in front of its lines, and the tree of the text
moves with it, every offense moves with it too, and the offenses keep their order. -/
theorem inspect_moved (root : SyntaxTree Extent) (text : List Char) (above : List (List Char))
    (c : Nat) (habove : ∀ line ∈ above, '\n' ∉ line)
    (hlines : ∀ t ∈ root.preorder [], 1 ≤ t.firstLine) :
    inspect (root.map (.shift above.length c)) (.ofText (below above (indented c text))) =
      (inspect root (.ofText text)).map (.shift above.length c) := by
  have hmoved : inspect (root.map (.shift above.length c))
        (.ofText (below above (indented c text))) =
      (inspect (root.map id) (.ofText text)).map (.shift above.length c) :=
    inspect_map_shift root (fun _ _ => rfl) fun t ht =>
      SourceLines.isTabIndented_moved habove c text (hlines t ht)
  rwa [SyntaxTree.map_id] at hmoved

/-- The text of `nestedCalls`. -/
def nestedText : List Char := "f(x,\n g(y,\n  z))".toList

/-- `nestedCalls` below a line with a tab and an empty line, three columns to the right. -/
theorem inspect_moved_nestedCalls :
    (∀ line ∈ [['\t', '#'], []], '\n' ∉ line) ∧
      (∀ t ∈ nestedCalls.preorder [], 1 ≤ t.firstLine) ∧
      (inspect nestedCalls (.ofText nestedText)).length = 2 ∧
      inspect (nestedCalls.map (.shift 2 3))
          (.ofText (below [['\t', '#'], []] (indented 3 nestedText))) =
        (inspect nestedCalls (.ofText nestedText)).map (.shift 2 3) := by
  have habove : ∀ line ∈ [['\t', '#'], []], '\n' ∉ line := by decide
  have hlines : ∀ t ∈ nestedCalls.preorder [], 1 ≤ t.firstLine := by decide
  refine ⟨habove, hlines, ?_, inspect_moved nestedCalls nestedText _ 3 habove hlines⟩
  rw [inspect, (sortOffenses_perm _).length_eq, callSites, SyntaxTree.walk_eq_preorder]
  decide

end CallAlign
