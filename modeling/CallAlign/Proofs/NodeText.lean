import CallAlign.Proofs.CharacterColumns
import CallAlign.Proofs.LineEndings
import CallAlign.Proofs.SourceOrder
import Mathlib.Algebra.Ring.Nat

/-!
# The text of a node

The text of a node is decoded from its own bytes; its span is told by the rows of the whole file.
The two agree when the node begins and ends between characters: the text is what stands from one end
of the span to the other in the decoded file.  Rows, whether of bytes or of characters, are counted
alike (`rowOffset`), because a file is cut at the same places before and after it is decoded; and
bytes that are cut between characters are decoded piece by piece (`decode_append_of_begins`).

    bytesIn_eq           : the bytes of a node, by their places in the file
    length_decode_before : the position of a point counts the characters before it
    text_eq_textBetween  : the text of a node is the text that its span names
-/

namespace CallAlign

/-! ## Places in a text -/

/-- How many elements of a text that is cut into rows stand before a column of a row, the ones at
which it is cut included. -/
def rowOffset {α : Type} (rows : List (List α)) (row column : Nat) : Nat :=
  ((rows.take row).map (·.length + 1)).sum + column

/-- The number of bytes before a point of a file. -/
def byteOffset (bytes : List UInt8) (p : Point) : Nat :=
  rowOffset (bytes.splitOn 0x0A) p.row p.byte

/-- The number of characters before a position of a text. -/
def charOffset (text : List Char) (p : Position) : Nat :=
  rowOffset (text.splitOn '\n') (p.line - 1).toNat p.column.toNat

/-- The characters of a text from one end of a span to the other. -/
def textBetween (text : List Char) (span : Span) : List Char :=
  (text.take (charOffset text span.stop)).drop (charOffset text span.start)

section

variable {α : Type} {x : α} {rows : List (List α)} {row : List α} {r c : Nat}

theorem rowOffset_zero (rows : List (List α)) (c : Nat) : rowOffset rows 0 c = c := by
  simp [rowOffset]

theorem rowOffset_cons (row : List α) (rows : List (List α)) (r c : Nat) :
    rowOffset (row :: rows) (r + 1) c = (row ++ [x]).length + rowOffset rows r c := by
  simp [rowOffset, Nat.add_assoc]

/-- What stands before a place of a row are the rows above it and a part of the row. -/
theorem take_rowOffset (hrow : rows[r]? = some row) (hc : c ≤ row.length) :
    ([x].intercalate rows).take (rowOffset rows r c) =
      [x].intercalate (rows.take r ++ [row.take c]) := by
  induction rows generalizing r with
  | nil => cases hrow
  | cons first rows ih =>
    cases r with
    | zero =>
      obtain rfl : first = row := by simpa using hrow
      rw [rowOffset_zero]
      cases rows <;> simp [List.intercalate_cons_cons, List.take_append_of_le_length, hc]
    | succ r =>
      have hne : rows ≠ [] := by rintro rfl; cases hrow
      rw [rowOffset_cons (x := x), List.intercalate_cons_of_ne_nil hne,
        List.take_length_add_append, ih hrow, List.take_succ_cons, List.cons_append,
        List.intercalate_cons_of_ne_nil (by simp)]

/-- What stands behind a place of a row are the rest of the row and the rows below it. -/
theorem drop_rowOffset (hrow : rows[r]? = some row) (hc : c ≤ row.length) :
    ([x].intercalate rows).drop (rowOffset rows r c) =
      [x].intercalate ((rows.drop r).modifyHead (·.drop c)) := by
  induction rows generalizing r with
  | nil => cases hrow
  | cons first rows ih =>
    cases r with
    | zero =>
      obtain rfl : first = row := by simpa using hrow
      rw [rowOffset_zero]
      cases rows <;> simp [List.intercalate_cons_cons, List.drop_append_of_le_length, hc]
    | succ r =>
      have hne : rows ≠ [] := by rintro rfl; cases hrow
      rw [rowOffset_cons (x := x), List.intercalate_cons_of_ne_nil hne,
        List.drop_length_add_append, ih hrow, List.drop_succ_cons]

theorem length_intercalate_concat (above : List (List α)) (last : List α) :
    ([x].intercalate (above ++ [last])).length =
      (above.map (·.length + 1)).sum + last.length := by
  induction above with
  | nil => simp
  | cons row above ih =>
    rw [List.cons_append, List.intercalate_cons_of_ne_nil (by simp), List.length_append, ih]
    simp [Nat.add_assoc]

theorem rowOffset_le_length (hrow : rows[r]? = some row) (hc : c ≤ row.length) :
    rowOffset rows r c ≤ ([x].intercalate rows).length := by
  have hlength := congrArg List.length (take_rowOffset (x := x) hrow hc)
  rw [length_intercalate_concat, List.length_take, List.length_take_of_le hc] at hlength
  unfold rowOffset at hlength ⊢
  omega

end

/-! ## Bytes of a node -/

section

variable {bytes : List UInt8} {p q : Point}

theorem RowTable.before_eq {rows : List (List UInt8)} {row : List UInt8}
    (hrow : rows[p.row]? = some row) :
    before rows p = rows.take p.row ++ [row.take p.byte] := by
  rw [before, hrow]
  rfl

/-- The rows up to a point are the bytes before it. -/
theorem intercalate_before (hq : q.LiesIn bytes) :
    [0x0A].intercalate (RowTable.before (bytes.splitOn 0x0A) q) =
      bytes.take (byteOffset bytes q) := by
  obtain ⟨row, hrow, hbyte⟩ := hq
  have htake := take_rowOffset (x := 0x0A) hrow hbyte
  rw [List.intercalate_splitOn] at htake
  rw [byteOffset, htake, RowTable.before_eq hrow]

/-- A point in the rows up to a later one stands as many bytes behind their beginning as it stands
behind that of the file. -/
theorem exists_row_before (hp : p.LiesIn bytes) (hq : q.LiesIn bytes) (h : p ≤ q) :
    ∃ row, (RowTable.before (bytes.splitOn 0x0A) q)[p.row]? = some row ∧ p.byte ≤ row.length ∧
      rowOffset (RowTable.before (bytes.splitOn 0x0A) q) p.row p.byte = byteOffset bytes p := by
  obtain ⟨row, hrow, hbyte⟩ := hp
  obtain ⟨last, hlast, hend⟩ := hq
  have hbefore := RowTable.before_eq hlast
  have hlength : ((bytes.splitOn 0x0A).take q.row).length = q.row :=
    List.length_take_of_le (List.getElem?_eq_some_iff.1 hlast).1.le
  have hle : p.row ≤ q.row := by
    rw [Point.le_iff] at h
    omega
  have hoffset : rowOffset (RowTable.before (bytes.splitOn 0x0A) q) p.row p.byte =
      byteOffset bytes p := by
    rw [hbefore, rowOffset, List.take_append_of_le_length (by rw [hlength]; exact hle),
      List.take_take, Nat.min_eq_left hle]
    rfl
  obtain hlt | ⟨heq, hbytes⟩ := (Point.le_iff p q).1 h
  · refine ⟨row, ?_, hbyte, hoffset⟩
    rw [hbefore, List.getElem?_append_left (by rw [hlength]; exact hlt), List.getElem?_take,
      if_pos hlt, hrow]
  · refine ⟨last.take q.byte, ?_, ?_, hoffset⟩
    · rw [hbefore, heq, List.getElem?_append_right hlength.le, hlength, Nat.sub_self]
      rfl
    · rwa [List.length_take_of_le hend]

theorem byteOffset_mono (hp : p.LiesIn bytes) (hq : q.LiesIn bytes) (h : p ≤ q) :
    byteOffset bytes p ≤ byteOffset bytes q := by
  obtain ⟨row, hrow, hbyte, hoffset⟩ := exists_row_before hp hq h
  have hle := rowOffset_le_length (x := 0x0A) hrow hbyte
  rw [hoffset, intercalate_before hq, List.length_take] at hle
  exact hle.trans (Nat.min_le_left _ _)

theorem bytesIn_eq {r : ByteRange} (hstart : r.start.LiesIn bytes) (hstop : r.stop.LiesIn bytes)
    (hle : r.start ≤ r.stop) :
    (RowTable.ofBytes bytes).bytesIn r =
      (bytes.take (byteOffset bytes r.stop)).drop (byteOffset bytes r.start) := by
  obtain ⟨row, hrow, hbyte, hoffset⟩ := exists_row_before hstart hstop hle
  rw [← intercalate_before hstop, ← hoffset, drop_rowOffset hrow hbyte]
  rfl

/-- The position of a point counts the characters before it, also where it stands inside one. -/
theorem length_decode_before (hp : p.LiesIn bytes) :
    (Utf8.decode (bytes.take (byteOffset bytes p))).length =
      charOffset (Utf8.decode bytes) ((RowTable.ofBytes bytes).position p) := by
  have hbefore := intercalate_before hp
  obtain ⟨row, hrow, hbyte⟩ := hp
  have hline : ((p.row : Int) + 1 - 1).toNat = p.row := by omega
  rw [← hbefore, Utf8.decode_intercalate, RowTable.before_eq hrow, List.map_append, List.map_take,
    List.map_singleton, length_intercalate_concat, position_eq_length_decode hrow hbyte, charOffset,
    splitOn_decode, hline, Int.toNat_natCast]
  rfl

end

namespace Utf8

/-! ## Cuts between characters -/

/-- The place behind `n` bytes is inside one of the characters that the bytes decode to. -/
def InsideCharacter (bs : List UInt8) (n : Nat) : Prop :=
  ∃ before piece after, CharacterBytes bs (before ++ piece :: after) ∧
    before.flatten.length < n ∧ n < before.flatten.length + piece.length

section

variable {bs cs : List UInt8} {pieces before after : List (List UInt8)} {piece : List UInt8}
  {n : Nat}

theorem length_marks (hne : [] ∉ pieces) : (marks pieces).length = pieces.flatten.length := by
  induction pieces with
  | nil => rfl
  | cons piece pieces ih =>
    obtain ⟨hpiece, hne⟩ := List.ne_and_not_mem_of_not_mem_cons hne
    have ih := ih hne
    unfold marks at ih ⊢
    rw [List.flatMap_cons, List.length_append, length_mark hpiece.symm, ih, List.flatten_cons,
      List.length_append]

/-- The marks of one piece among others. -/
theorem getElem?_marks (hne : [] ∉ before) (hn : n < piece.length) :
    (marks (before ++ piece :: after))[before.flatten.length + n]? = some (n == 0) := by
  have hmarks : marks (before ++ piece :: after) =
      marks before ++ (true :: List.replicate (piece.length - 1) false ++ marks after) := by
    simp [marks]
  rw [hmarks, List.getElem?_append_right (by rw [length_marks hne]; omega), length_marks hne,
    Nat.add_sub_cancel_left, List.getElem?_append_left (by simp; omega)]
  cases n with
  | zero => rfl
  | succ n =>
    rw [List.getElem?_cons_succ, List.getElem?_replicate, if_pos (by omega)]
    rfl

/-- Each byte of some pieces is in one of them. -/
theorem exists_piece (hn : n < pieces.flatten.length) :
    ∃ before piece after, pieces = before ++ piece :: after ∧
      before.flatten.length ≤ n ∧ n < before.flatten.length + piece.length := by
  induction pieces generalizing n with
  | nil => cases hn
  | cons piece pieces ih =>
    by_cases hfirst : n < piece.length
    · exact ⟨[], piece, pieces, rfl, Nat.zero_le n, by simpa using hfirst⟩
    · rw [List.flatten_cons, List.length_append] at hn
      obtain ⟨before, next, after, rfl, hlow, hhigh⟩ := ih (n := n - piece.length) (by omega)
      refine ⟨piece :: before, next, after, rfl, ?_, ?_⟩ <;>
        rw [List.flatten_cons, List.length_append] <;> omega

/-- A place is inside a character exactly when the byte behind it begins none. -/
theorem insideCharacter_iff : InsideCharacter bs n ↔ (begins .ready bs)[n]? = some false := by
  constructor
  · rintro ⟨before, piece, after, hpieces, hlow, hhigh⟩
    have hne : [] ∉ before := fun hmem => hpieces.nil_notMem (List.mem_append_left _ hmem)
    obtain ⟨k, rfl⟩ := Nat.exists_eq_add_of_lt hlow
    rw [hpieces.begins_eq, Nat.add_assoc, getElem?_marks hne (by omega)]
    rfl
  · intro h
    obtain ⟨pieces, hpieces⟩ := exists_characterBytes bs
    have hn : n < pieces.flatten.length := by
      rw [hpieces.flatten_eq, ← length_begins .ready bs]
      exact (List.getElem?_eq_some_iff.1 h).1
    obtain ⟨before, piece, after, rfl, hlow, hhigh⟩ := exists_piece hn
    have hne : [] ∉ before := fun hmem => hpieces.nil_notMem (List.mem_append_left _ hmem)
    obtain ⟨k, rfl⟩ := Nat.exists_eq_add_of_le hlow
    rw [hpieces.begins_eq, getElem?_marks hne (by omega), Option.some.injEq,
      beq_eq_false_iff_ne] at h
    exact ⟨before, piece, after, hpieces, by omega, hhigh⟩

instance (bs : List UInt8) (n : Nat) : Decidable (InsideCharacter bs n) :=
  decidable_of_iff _ insideCharacter_iff.symm

/-- Bytes that are cut between characters are decoded apart. -/
theorem decode_append_of_begins (h : (begins .ready (bs ++ cs))[bs.length]? ≠ some false) :
    decode (bs ++ cs) = decode bs ++ decode cs := by
  cases cs with
  | nil => simp [decode, units, unitsFrom, State.finish]
  | cons c cs =>
    have hgoes : (run .ready bs).goesOn c = false := by
      rw [begins_append, List.getElem?_append_right (by rw [length_begins]), length_begins] at h
      simpa [begins] using h
    have hunits : unitsFrom (run .ready bs) (c :: cs) =
        (run .ready bs).finish ++ units (c :: cs) := by
      rw [unitsFrom, step_of_not_goesOn hgoes, List.append_assoc]
      rfl
    unfold decode
    rw [units, unitsFrom_append, hunits, ← List.append_assoc, ← unitsFrom_eq_emitted_append,
      List.map_append]
    rfl

theorem decode_take_append_decode_drop (hn : ¬ InsideCharacter bs n) :
    decode (bs.take n) ++ decode (bs.drop n) = decode bs := by
  by_cases hle : n ≤ bs.length
  · rw [← decode_append_of_begins, List.take_append_drop]
    rwa [List.take_append_drop, List.length_take_of_le hle, Ne, ← insideCharacter_iff]
  · rw [List.take_of_length_le (by omega), List.drop_of_length_le (by omega)]
    exact List.append_nil _

theorem InsideCharacter.of_take {m : Nat} (h : InsideCharacter (bs.take n) m) :
    InsideCharacter bs m := by
  rw [insideCharacter_iff, begins_take, List.getElem?_take] at h
  split at h
  · exact insideCharacter_iff.2 h
  · cases h

/-- A part of some bytes that begins and ends between characters is decoded to the characters that
stand between its ends. -/
theorem decode_slice {m : Nat} (hm : ¬ InsideCharacter bs m) (hn : ¬ InsideCharacter bs n)
    (hle : m ≤ n) :
    decode ((bs.take n).drop m) =
      ((decode bs).take (decode (bs.take n)).length).drop (decode (bs.take m)).length := by
  have hwhole := decode_take_append_decode_drop hn
  have hprefix := decode_take_append_decode_drop fun h : InsideCharacter (bs.take n) m =>
    hm h.of_take
  rw [List.take_take, Nat.min_eq_left hle] at hprefix
  rw [← hwhole, List.take_left, ← hprefix, List.drop_left]

end

end Utf8

/-! ## Top theorem -/

/-- For any bytes, well-formed or not, a node whose ends are in order and stand between characters
of the decoded file has the bytes between its ends, and its text is what stands in the decoded file
between the ends of its span. -/
theorem text_eq_textBetween (bytes : List UInt8) (r : ByteRange)
    (hstart : r.start.LiesIn bytes) (hstop : r.stop.LiesIn bytes) (hle : r.start ≤ r.stop)
    (hfrom : ¬ Utf8.InsideCharacter bytes (byteOffset bytes r.start))
    (hto : ¬ Utf8.InsideCharacter bytes (byteOffset bytes r.stop)) :
    let t := RowTable.ofBytes bytes
    t.bytesIn r = (bytes.take (byteOffset bytes r.stop)).drop (byteOffset bytes r.start) ∧
      (t.text r).toList = textBetween (Utf8.decode bytes) (t.span r) := by
  intro t
  have hbytes : t.bytesIn r = _ := bytesIn_eq hstart hstop hle
  refine ⟨hbytes, ?_⟩
  rw [RowTable.text, String.toList_ofList, hbytes,
    Utf8.decode_slice hfrom hto (byteOffset_mono hstart hstop hle),
    length_decode_before hstart, length_decode_before hstop]
  rfl

/-- A byte order mark, then `f(é,`, a line feed, a space, the first two of the three bytes of a
character, and `)`. -/
def markedBytes : List UInt8 :=
  [0xEF, 0xBB, 0xBF, 0x66, 0x28, 0xC3, 0xA9, 0x2C, 0x0A, 0x20, 0xE2, 0x82, 0x29]

/-- The arguments of the call, over both rows. -/
theorem text_eq_textBetween_markedBytes :
    let arguments : ByteRange := ⟨⟨0, 4⟩, ⟨1, 4⟩⟩
    let t := RowTable.ofBytes markedBytes
    (arguments.start.LiesIn markedBytes ∧ arguments.stop.LiesIn markedBytes ∧
      arguments.start ≤ arguments.stop ∧
      ¬ Utf8.InsideCharacter markedBytes (byteOffset markedBytes arguments.start) ∧
      ¬ Utf8.InsideCharacter markedBytes (byteOffset markedBytes arguments.stop)) ∧
    t.span arguments = ⟨⟨1, 2⟩, ⟨2, 3⟩⟩ ∧
    (t.text arguments).toList = ['(', 'é', ',', '\n', ' ', Utf8.replacement, ')'] := by
  intro arguments t
  have hends : arguments.start.LiesIn markedBytes ∧ arguments.stop.LiesIn markedBytes ∧
      arguments.start ≤ arguments.stop ∧
      ¬ Utf8.InsideCharacter markedBytes (byteOffset markedBytes arguments.start) ∧
      ¬ Utf8.InsideCharacter markedBytes (byteOffset markedBytes arguments.stop) := by decide
  have hspan : t.span arguments = ⟨⟨1, 2⟩, ⟨2, 3⟩⟩ := by decide
  obtain ⟨hstart, hstop, hle, hfrom, hto⟩ := hends
  obtain ⟨-, htext⟩ := text_eq_textBetween markedBytes arguments hstart hstop hle hfrom hto
  rw [hspan] at htext
  exact ⟨⟨hstart, hstop, hle, hfrom, hto⟩, hspan, htext.trans (by decide)⟩

end CallAlign
