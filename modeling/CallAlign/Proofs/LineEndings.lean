import CallAlign.Proofs.DecodedRows
import CallAlign.Proofs.ObservedLayout

/-!
# Line endings

A carriage return before each line feed (`withReturns`) lengthens every row but the last by one
byte (`forall₂_rows_withReturns`).  The byte is one of the first 128, so that it changes neither
what is decoded before it nor whether a file is pure ASCII; and it stands behind the row, so that
no point of the row and no indentation has it before its end.

    position_withReturns    : points of the file keep their positions
    tabIndented_withReturns : the same lines are indented with tabs
    inspect_withReturns     : the offenses are the same
-/

namespace CallAlign

/-- The bytes with a carriage return before every line feed. -/
def withReturns (bytes : List UInt8) : List UInt8 :=
  bytes.flatMap fun b => if b = 0x0A then [0x0D, 0x0A] else [b]

/-! ## Rows -/

/-- The second row is the first one, or the first one with a carriage return at the end. -/
def RowOrReturned (row row' : List UInt8) : Prop := row' = row ∨ row' = row ++ [0x0D]

theorem forall₂_modifyHead_cons (b : UInt8) {rows rows' : List (List UInt8)}
    (h : List.Forall₂ RowOrReturned rows rows') :
    List.Forall₂ RowOrReturned (rows.modifyHead (b :: ·)) (rows'.modifyHead (b :: ·)) := by
  cases h with
  | nil => exact .nil
  | cons hrow hrows =>
    refine .cons ?_ hrows
    rcases hrow with rfl | rfl
    · exact .inl rfl
    · exact .inr rfl

theorem forall₂_rows_withReturns (bytes : List UInt8) :
    List.Forall₂ RowOrReturned (bytes.splitOn 0x0A) ((withReturns bytes).splitOn 0x0A) := by
  induction bytes with
  | nil => exact .cons (.inl rfl) .nil
  | cons b bytes ih =>
    by_cases hb : b = 0x0A
    · subst hb
      have hcons : withReturns (0x0A :: bytes) = 0x0D :: 0x0A :: withReturns bytes := rfl
      rw [hcons, List.splitOn_cons_eq_if_modifyHead, List.splitOn_cons_eq_if_modifyHead,
        List.splitOn_cons_eq_if_modifyHead]
      exact .cons (.inr rfl) ih
    · have hcons : withReturns (b :: bytes) = b :: withReturns bytes := by
        simp [withReturns, hb]
      rw [hcons, List.splitOn_cons_eq_if_modifyHead, List.splitOn_cons_eq_if_modifyHead,
        if_neg (by simpa using hb), if_neg (by simpa using hb)]
      exact forall₂_modifyHead_cons b ih

theorem exists_row_withReturns {bytes row : List UInt8} {r : Nat}
    (h : (bytes.splitOn 0x0A)[r]? = some row) :
    ∃ row', ((withReturns bytes).splitOn 0x0A)[r]? = some row' ∧ RowOrReturned row row' := by
  have hrows := forall₂_rows_withReturns bytes
  obtain ⟨hr, rfl⟩ := List.getElem?_eq_some_iff.1 h
  have hr' : r < ((withReturns bytes).splitOn 0x0A).length := hrows.length_eq ▸ hr
  exact ⟨_, List.getElem?_eq_getElem hr', hrows.get hr hr'⟩

/-! ## Positions -/

/-- The point is at a byte of a row, or at the end of the row. -/
def Point.LiesIn (bytes : List UInt8) (p : Point) : Prop :=
  ∃ row ∈ (bytes.splitOn 0x0A)[p.row]?, p.byte ≤ row.length

instance (bytes : List UInt8) (p : Point) : Decidable (p.LiesIn bytes) :=
  decidable_of_iff ((bytes.splitOn 0x0A)[p.row]?.any (p.byte ≤ ·.length))
    (by simp [Point.LiesIn, Option.any_eq_true])

theorem all_ascii_withReturns (bytes : List UInt8) :
    (withReturns bytes).all (· < 0x80) = bytes.all (· < 0x80) := by
  unfold withReturns
  rw [List.all_flatMap]
  congr 1
  funext b
  split
  · next hb => subst hb; rfl
  · simp

/-- A point is read by the bytes before it on its row. -/
theorem RowTable.position_congr {t t' : RowTable} {p : Point} {row row' : List UInt8}
    (hascii : t'.ascii = t.ascii) (hrow : t.rows[p.row]? = some row)
    (hrow' : t'.rows[p.row]? = some row') (htake : row'.take p.byte = row.take p.byte) :
    t'.position p = t.position p := by
  unfold position
  rw [hascii, hrow, hrow']
  cases t.ascii with
  | false => simp only [htake]
  | true => rfl

theorem position_withReturns {bytes : List UInt8} {p : Point} (hp : p.LiesIn bytes) :
    (RowTable.ofBytes (withReturns bytes)).position p = (RowTable.ofBytes bytes).position p := by
  obtain ⟨row, hrow, hbyte⟩ := hp
  obtain ⟨row', hrow', hends⟩ := exists_row_withReturns hrow
  refine RowTable.position_congr (all_ascii_withReturns bytes) hrow hrow' ?_
  rcases hends with rfl | rfl
  · rfl
  · exact List.take_append_of_le_length hbyte

/-! ## Indentation -/

theorem tabInIndent_append_return (row : List Char) :
    SourceLines.tabInIndent (row ++ ['\r']) = SourceLines.tabInIndent row := by
  have hdrop : SourceLines.dropReturn (row ++ ['\r']) = row := by simp [SourceLines.dropReturn]
  rw [← SourceLines.tabInIndent_dropReturn, hdrop]

/-- The tab-indented lines of a text are told by its rows, carriage returns included. -/
theorem tabIndented_ofText (text : List Char) :
    (SourceLines.ofText text).tabIndented =
      (((text.splitOn '\n').map SourceLines.tabInIndent).zipIdx.filter (·.1)).map
        fun entry => (entry.2 : Int) + 1 := by
  simp [SourceLines.ofText, SourceLines.numbered, List.zipIdx_map, List.filter_map,
    Function.comp_def, SourceLines.tabInIndent_dropReturn]

theorem tabInIndent_decode_of_rowOrReturned {row row' : List UInt8} (h : RowOrReturned row row') :
    SourceLines.tabInIndent (Utf8.decode row') = SourceLines.tabInIndent (Utf8.decode row) := by
  rcases h with rfl | rfl
  · rfl
  · have hdecode : Utf8.decode (row ++ [0x0D]) = Utf8.decode row ++ ['\r'] :=
      Utf8.decode_append_ascii row (by decide) []
    rw [hdecode, tabInIndent_append_return]

theorem tabIndented_withReturns (bytes : List UInt8) :
    (SourceLines.ofText (Utf8.decode (withReturns bytes))).tabIndented =
      (SourceLines.ofText (Utf8.decode bytes)).tabIndented := by
  rw [tabIndented_ofText, tabIndented_ofText, splitOn_decode, splitOn_decode]
  have hrows := forall₂_rows_withReturns bytes
  generalize bytes.splitOn 0x0A = rows at hrows ⊢
  generalize (withReturns bytes).splitOn 0x0A = rows' at hrows ⊢
  suffices h : (rows'.map Utf8.decode).map SourceLines.tabInIndent =
      (rows.map Utf8.decode).map SourceLines.tabInIndent by rw [h]
  induction hrows with
  | nil => rfl
  | cons hrow _ ih =>
    simp only [List.map_cons, ih, tabInIndent_decode_of_rowOrReturned hrow]

theorem length_withReturns (bytes : List UInt8) :
    (SourceLines.ofText (Utf8.decode (withReturns bytes))).length =
      (SourceLines.ofText (Utf8.decode bytes)).length := by
  have hrows := (forall₂_rows_withReturns bytes).length_eq
  simp [SourceLines.length, SourceLines.ofText, splitOn_decode, hrows]

/-! ## Top theorem -/

/-- Over the bytes with a carriage return before every line feed, a tree with points in the file
has the same spans, and there are as many lines, the same of them indented with tabs: the offenses
are the same. -/
theorem inspect_withReturns (bytes : List UInt8) (tree : SyntaxTree ByteRange)
    (hpoints : ∀ t ∈ tree.preorder [], t.label.start.LiesIn bytes ∧ t.label.stop.LiesIn bytes) :
    let table := RowTable.ofBytes bytes
    let table' := RowTable.ofBytes (withReturns bytes)
    let lines := SourceLines.ofText (Utf8.decode bytes)
    let lines' := SourceLines.ofText (Utf8.decode (withReturns bytes))
    (∀ t ∈ tree.preorder [], table'.span t.label = table.span t.label) ∧
      lines'.length = lines.length ∧ lines'.tabIndented = lines.tabIndented ∧
      inspect (table'.read tree) lines' = inspect (table.read tree) lines := by
  intro table table' lines lines'
  have hspan : ∀ t ∈ tree.preorder [], table'.span t.label = table.span t.label := by
    intro t ht
    obtain ⟨hstart, hstop⟩ := hpoints t ht
    unfold RowTable.span
    rw [position_withReturns hstart, position_withReturns hstop]
  have htabs : lines'.tabIndented = lines.tabIndented := tabIndented_withReturns bytes
  refine ⟨hspan, length_withReturns bytes, htabs, ?_⟩
  have hinspect : inspect (table'.read tree) lines' =
      (inspect (table.read tree) lines).map (.shift 0 0) := by
    refine inspect_map_shift tree (fun t ht => ?_) fun t _ => ?_
    · rw [hspan t ht, Span.shift_zero]
    · rw [Int.add_zero, SourceLines.isTabIndented, htabs, SourceLines.isTabIndented]
  rwa [Offense.shift_zero, List.map_id] at hinspect

/-- `é(x,` and the first two of the three bytes of a character, then ` y)` and a carriage return,
then a tab. -/
def mixedEndings : List UInt8 :=
  [0xC3, 0xA9, 0x28, 0x78, 0x2C, 0xE2, 0x82, 0x0A, 0x20, 0x79, 0x29, 0x0D, 0x0A, 0x09]

/-- The call of `mixedEndings`. -/
def mixedEndingsCall : SyntaxTree ByteRange :=
  .node "call" ⟨⟨0, 0⟩, ⟨1, 3⟩⟩ [("arguments", 1)]
    [.node "identifier" ⟨⟨0, 0⟩, ⟨0, 2⟩⟩ [] [],
     .node "argument_list" ⟨⟨0, 2⟩, ⟨1, 3⟩⟩ []
      [.node "(" ⟨⟨0, 2⟩, ⟨0, 3⟩⟩ [] [], .node "identifier" ⟨⟨0, 3⟩, ⟨0, 4⟩⟩ [] [],
       .node "," ⟨⟨0, 4⟩, ⟨0, 5⟩⟩ [] [], .node "comment" ⟨⟨0, 5⟩, ⟨0, 7⟩⟩ [] [],
       .node "identifier" ⟨⟨1, 1⟩, ⟨1, 2⟩⟩ [] [], .node ")" ⟨⟨1, 2⟩, ⟨1, 3⟩⟩ [] []]]

/-- Its one offense stays where it is. -/
theorem inspect_withReturns_mixedEndings :
    (∀ t ∈ mixedEndingsCall.preorder [],
      t.label.start.LiesIn mixedEndings ∧ t.label.stop.LiesIn mixedEndings) ∧
    (SourceLines.ofText (Utf8.decode (withReturns mixedEndings))).tabIndented = [3] ∧
    inspect ((RowTable.ofBytes (withReturns mixedEndings)).read mixedEndingsCall)
        (.ofText (Utf8.decode (withReturns mixedEndings))) =
      [⟨.convention, misalignedMessage, 2, 1⟩] := by
  have hpoints : ∀ t ∈ mixedEndingsCall.preorder [],
      t.label.start.LiesIn mixedEndings ∧ t.label.stop.LiesIn mixedEndings := by decide
  obtain ⟨-, -, htabs, hinspect⟩ := inspect_withReturns mixedEndings mixedEndingsCall hpoints
  refine ⟨hpoints, ?_, ?_⟩
  · rw [htabs]
    decide
  · rw [hinspect]
    have hfound : (callSites ((RowTable.ofBytes mixedEndings).read mixedEndingsCall)).filterMap
        (checkCall (.ofText (Utf8.decode mixedEndings))) =
        [⟨.convention, misalignedMessage, 2, 1⟩] := by
      rw [callSites, SyntaxTree.walk_eq_preorder]
      decide
    rw [inspect, hfound]
    exact List.perm_singleton.1 (sortOffenses_perm _)

end CallAlign
