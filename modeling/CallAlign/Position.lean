/-!
# Positions and spans

A position names a place in a text: the line, counted from one, and the character column,
counted from zero.  Both are integers, because a tree need not come from a file.
Positions are ordered line first.

    Position.le_total, Position.le_trans, Position.le_antisymm   the order is linear
-/

namespace CallAlign

/-- A place in a text: 1-based line, 0-based character column. -/
structure Position where
  line : Int
  column : Int
  deriving DecidableEq, Repr, Inhabited

/-- The extent of a node: from its first character to just after its last one. -/
structure Span where
  start : Position
  stop : Position
  deriving DecidableEq, Repr, Inhabited

namespace Position

/-! ## Order and text -/

/-- `p` comes at or before `q`: an earlier line, or the same line and no later column. -/
def le (p q : Position) : Bool :=
  p.line < q.line || (p.line == q.line && p.column ≤ q.column)

/-- The positions in order; equal ones keep their places. -/
def sort (ps : List Position) : List Position := ps.mergeSort le

/-- The least position, `none` when there is none. -/
def least? : List Position → Option Position
  | [] => none
  | p :: ps => some (ps.foldl (fun best q => if best.le q then best else q) p)

/-- A position as reports write it, `line:column`. -/
def text (p : Position) : String := toString p.line ++ ":" ++ toString p.column

/-! ## Lemmas -/

theorem le_iff (p q : Position) :
    p.le q = true ↔ p.line < q.line ∨ p.line = q.line ∧ p.column ≤ q.column := by
  simp [le]

theorem le_refl (p : Position) : p.le p = true := by
  simp [le_iff]

theorem le_total (p q : Position) : (p.le q || q.le p) = true := by
  rw [Bool.or_eq_true, le_iff, le_iff]; omega

theorem le_trans (p q r : Position) (hpq : p.le q = true) (hqr : q.le r = true) :
    p.le r = true := by
  rw [le_iff] at *; omega

theorem le_antisymm (p q : Position) (hpq : p.le q = true) (hqp : q.le p = true) : p = q := by
  rw [le_iff] at *
  obtain ⟨pl, pc⟩ := p
  obtain ⟨ql, qc⟩ := q
  simp only [Position.mk.injEq] at *
  omega

end Position

end CallAlign
