import CallAlign.Source
import Mathlib.Tactic.SplitIfs

/-!
# Rows of bytes and lines of text

A file is cut at line feeds twice: into rows of bytes, by which a parser counts, and, once decoded,
into lines of text.  Both cuts are at the same places, whatever the bytes are.  A line feed ends
every part that is being read: no state of the decoder takes it, or another of the first 128 bytes,
for the rest of a character (`step_ascii`), and no other byte makes a line feed
(`eq_lineFeed_of_mem_step`).  As many characters are decoded as there are bytes that do not go on
with one (`length_decode`), in a prefix as in the whole.

    splitOn_decode   : the lines of the decoded bytes are the decoded rows of the bytes
    lines_match_rows : line numbers and columns of points are numbers and columns of existing lines
-/

namespace CallAlign

namespace Utf8

/-! ## States that occur -/

/-- The states that reading can reach.  The next byte of a character that has begun is a
continuation byte, and the character will not be one of the first 128. -/
def State.Sound : State → Prop
  | .ready => True
  | .within owed low high bits =>
    0x80 ≤ low ∧ high ≤ 0xBF ∧ 2 ≤ if owed = 0 then bits else bits * 64 + low.toNat % 64

theorem first_sound (b : UInt8) : (first b).2.Sound := by
  unfold first
  split_ifs <;> simp_all [State.Sound, UInt8.lt_iff_toNat_lt, ← UInt8.toNat_inj] <;> omega

theorem step_sound {s : State} (hs : s.Sound) (b : UInt8) : (step s b).2.Sound := by
  cases s with
  | ready => exact first_sound b
  | within owed low high bits =>
    by_cases hb : (low ≤ b && b ≤ high) = true
    · cases owed with
      | zero => simp [step, hb, State.Sound]
      | succ n =>
        simp only [step, hb, if_true, State.Sound]
        simp only [State.Sound, Nat.succ_ne_zero, if_false] at hs
        simp only [Bool.and_eq_true, decide_eq_true_eq] at hb
        simp only [UInt8.le_iff_toNat_le, UInt8.reduceToNat] at hs hb ⊢
        refine ⟨by decide, by decide, ?_⟩
        split <;> omega
    · simp only [step, hb]
      exact first_sound b

theorem run_sound {s : State} (hs : s.Sound) (bs : List UInt8) : (run s bs).Sound := by
  induction bs generalizing s with
  | nil => exact hs
  | cons b bs ih => exact ih (step_sound hs b)

/-! ## Line feeds -/

/-- One of the first 128 bytes ends what is being read, and is a character itself. -/
theorem step_ascii {s : State} (hs : s.Sound) {b : UInt8} (hb : b < 0x80) :
    step s b = (s.finish ++ [some (Char.ofNat b.toNat)], .ready) := by
  have hfirst : first b = ([some (Char.ofNat b.toNat)], .ready) := by rw [first, if_pos hb]
  cases s with
  | ready => exact hfirst
  | within owed low high bits =>
    have hout : (low ≤ b && b ≤ high) = false := by
      have hlow := hs.1
      simp only [UInt8.le_iff_toNat_le, UInt8.lt_iff_toNat_lt, UInt8.reduceToNat,
        Bool.and_eq_false_iff, decide_eq_false_iff_not] at hlow hb ⊢
      omega
    simp only [step, hout, hfirst]
    rfl

theorem ofNat_ne_lineFeed {n : Nat} (h : n ≠ 10) : Char.ofNat n ≠ '\n' := by
  intro heq
  unfold Char.ofNat at heq
  by_cases hvalid : n.isValidChar
  · rw [dif_pos hvalid] at heq
    have hn : n = 10 := congrArg Char.toNat heq
    exact h hn
  · rw [dif_neg hvalid] at heq
    exact absurd heq (by decide)

theorem eq_lineFeed_of_mem_first {b : UInt8} (h : some '\n' ∈ (first b).1) : b = 0x0A := by
  by_cases h10 : b.toNat = 10
  · exact UInt8.toNat_inj.1 h10
  · have hchar : '\n' ≠ Char.ofNat b.toNat := (ofNat_ne_lineFeed h10).symm
    unfold first at h
    split_ifs at h <;> simp_all

/-- No other byte gives a line feed. -/
theorem eq_lineFeed_of_mem_step {s : State} (hs : s.Sound) {b : UInt8}
    (h : some '\n' ∈ (step s b).1) : b = 0x0A := by
  cases s with
  | ready => exact eq_lineFeed_of_mem_first h
  | within owed low high bits =>
    by_cases hb : (low ≤ b && b ≤ high) = true
    · cases owed with
      | zero =>
        simp only [State.Sound, if_true] at hs
        simp only [step, hb, if_true, List.mem_singleton, Option.some.injEq] at h
        exact absurd h.symm (ofNat_ne_lineFeed (by omega))
      | succ n => simp [step, hb] at h
    · simp only [step, hb] at h
      exact eq_lineFeed_of_mem_first (by simpa using h)

theorem unitsFrom_append_ascii {s : State} (hs : s.Sound) (bs : List UInt8) {b : UInt8}
    (hb : b < 0x80) (cs : List UInt8) :
    unitsFrom s (bs ++ b :: cs) = unitsFrom s bs ++ some (Char.ofNat b.toNat) :: units cs := by
  rw [unitsFrom_append, unitsFrom, step_ascii (run_sound hs bs) hb,
    unitsFrom_eq_emitted_append s bs]
  simp [units]

theorem lineFeed_mem_of_mem_unitsFrom {s : State} (hs : s.Sound) {bs : List UInt8}
    (h : some '\n' ∈ unitsFrom s bs) : 0x0A ∈ bs := by
  induction bs generalizing s with
  | nil => cases s <;> simp [unitsFrom, State.finish] at h
  | cons b bs ih =>
    rcases List.mem_append.1 h with h | h
    · rw [eq_lineFeed_of_mem_step hs h]
      exact List.mem_cons_self
    · exact List.mem_cons_of_mem b (ih (step_sound hs b) h)

/-- What stands before and after one of the first 128 bytes is decoded apart. -/
theorem decode_append_ascii (bs : List UInt8) {b : UInt8} (hb : b < 0x80) (cs : List UInt8) :
    decode (bs ++ b :: cs) = decode bs ++ Char.ofNat b.toNat :: decode cs := by
  unfold decode
  rw [units, unitsFrom_append_ascii (s := .ready) trivial bs hb]
  simp [units]

theorem decode_append_lineFeed (bs cs : List UInt8) :
    decode (bs ++ 0x0A :: cs) = decode bs ++ '\n' :: decode cs :=
  decode_append_ascii bs (by decide) cs

theorem lineFeed_mem_of_mem_decode {bs : List UInt8} (h : '\n' ∈ decode bs) : 0x0A ∈ bs := by
  obtain ⟨u, hu, heq⟩ := List.mem_map.1 h
  cases u with
  | none => exact absurd heq (by decide)
  | some c =>
    simp only [Option.getD_some] at heq
    subst heq
    exact lineFeed_mem_of_mem_unitsFrom (s := .ready) trivial hu

theorem decode_intercalate (rows : List (List UInt8)) :
    decode ([0x0A].intercalate rows) = ['\n'].intercalate (rows.map decode) := by
  induction rows with
  | nil => rfl
  | cons row rows ih =>
    cases rows with
    | nil => simp
    | cons next rows =>
      rw [List.intercalate_cons_cons, List.append_assoc, List.singleton_append,
        decode_append_lineFeed, ih]
      simp [List.intercalate_cons_cons]

/-! ## First bytes -/

/-- The byte goes on with the character that has begun. -/
def State.goesOn : State → UInt8 → Bool
  | .ready, _ => false
  | .within _ low high _, b => low ≤ b && b ≤ high

/-- For each byte, whether a character or an ill-formed part begins with it. -/
def begins (s : State) : List UInt8 → List Bool
  | [] => []
  | b :: bs => (!s.goesOn b) :: begins (step s b).2 bs

/-- A byte that does not go on ends what is being read, and is read as if nothing had been. -/
theorem step_of_not_goesOn {s : State} {b : UInt8} (h : s.goesOn b = false) :
    step s b = (s.finish ++ (first b).1, (first b).2) := by
  cases s with
  | ready => rfl
  | within owed low high bits =>
    have hb : (low ≤ b && b ≤ high) = false := h
    simp [step, hb, State.finish]

/-- A byte ends one unit, or begins one that is not ended yet. -/
theorem length_first (b : UInt8) : (first b).1.length + (first b).2.finish.length = 1 := by
  unfold first
  split_ifs <;> rfl

/-- A byte adds one unit, ended or not, unless it goes on with one. -/
theorem length_step (s : State) (b : UInt8) :
    (step s b).1.length + (step s b).2.finish.length =
      s.finish.length + if s.goesOn b then 0 else 1 := by
  cases hgoes : s.goesOn b with
  | false =>
    have hfirst := length_first b
    rw [step_of_not_goesOn hgoes, List.length_append]
    simp only [Bool.false_eq_true, if_false]
    omega
  | true =>
    cases s with
    | ready => cases hgoes
    | within owed low high bits =>
      have hb : (low ≤ b && b ≤ high) = true := hgoes
      cases owed <;> simp [step, hb, State.finish]

/-- There is a unit for every first byte, and one for what has begun before. -/
theorem length_unitsFrom (s : State) (bs : List UInt8) :
    (unitsFrom s bs).length = s.finish.length + (begins s bs).count true := by
  induction bs generalizing s with
  | nil => simp [unitsFrom, begins]
  | cons b bs ih =>
    have hstep := length_step s b
    rw [unitsFrom, List.length_append, ih, begins, List.count_cons]
    cases hgoes : s.goesOn b with
    | false => simp [hgoes] at hstep ⊢; omega
    | true => simp [hgoes] at hstep ⊢; omega

theorem length_decode (bs : List UInt8) : (decode bs).length = (begins .ready bs).count true := by
  rw [decode, List.length_map, units, length_unitsFrom]
  simp [State.finish]

theorem length_begins (s : State) (bs : List UInt8) : (begins s bs).length = bs.length := by
  induction bs generalizing s with
  | nil => rfl
  | cons b bs ih => simp [begins, ih]

theorem begins_take (s : State) (bs : List UInt8) (n : Nat) :
    begins s (bs.take n) = (begins s bs).take n := by
  induction bs generalizing s n with
  | nil => simp [begins]
  | cons b bs ih =>
    cases n with
    | zero => rfl
    | succ n => simp [begins, ih]

/-- A prefix decodes to as many characters as begin in it, also when it cuts the last one. -/
theorem length_decode_take (bs : List UInt8) (n : Nat) :
    (decode (bs.take n)).length = ((begins .ready bs).take n).count true := by
  rw [length_decode, begins_take]

/-- A prefix of some bytes decodes to no more characters than all of them. -/
theorem length_decode_take_le (bs : List UInt8) (n : Nat) :
    (decode (bs.take n)).length ≤ (decode bs).length := by
  rw [length_decode_take, length_decode]
  exact (List.take_sublist n _).count_le true

/-- The bytes of the first 128 characters are characters. -/
theorem decode_ascii {bs : List UInt8} (h : ∀ b ∈ bs, b < 0x80) :
    decode bs = bs.map fun b => Char.ofNat b.toNat := by
  unfold decode units
  induction bs with
  | nil => rfl
  | cons b bs ih =>
    have hb : first b = ([some (Char.ofNat b.toNat)], .ready) := by
      rw [first, if_pos (h b List.mem_cons_self)]
    have ih := ih fun c hc => h c (List.mem_cons_of_mem b hc)
    rw [unitsFrom, step, hb, List.map_append, ih]
    rfl

end Utf8

/-! ## Rows -/

/-- The rows of a list lie in it and do not hold what separates them. -/
theorem subset_of_mem_splitOn {α : Type} [BEq α] [LawfulBEq α] {x : α} {xs : List α} :
    ∀ row ∈ xs.splitOn x, row ⊆ xs ∧ x ∉ row := by
  induction xs with
  | nil => simp
  | cons y ys ih =>
    rw [List.splitOn_cons_eq_if_modifyHead]
    split
    · simp only [List.mem_cons, forall_eq_or_imp]
      refine ⟨by simp, fun row hrow => ?_⟩
      exact ⟨List.subset_cons_of_subset y (ih row hrow).1, (ih row hrow).2⟩
    · next hne =>
      cases hsplit : ys.splitOn x with
      | nil => simp
      | cons row rows =>
        rw [hsplit] at ih
        obtain ⟨⟨hsub, hx⟩, hrest⟩ := List.forall_mem_cons.1 ih
        rw [List.modifyHead_cons, List.forall_mem_cons]
        refine ⟨⟨List.cons_subset_cons y hsub, ?_⟩, fun row hrow => ?_⟩
        · exact List.not_mem_cons_of_ne_of_not_mem (fun heq => hne (by simp [heq])) hx
        · exact ⟨List.subset_cons_of_subset y (hrest row hrow).1, (hrest row hrow).2⟩

/-- Rows that are ended one by one come before the rows of what follows. -/
theorem splitOn_flatMap_append {α : Type} [BEq α] [LawfulBEq α] {x : α} {rows : List (List α)}
    (hrows : ∀ row ∈ rows, x ∉ row) (rest : List α) :
    (rows.flatMap (· ++ [x]) ++ rest).splitOn x = rows ++ rest.splitOn x := by
  induction rows with
  | nil => rfl
  | cons row rows ih =>
    obtain ⟨hrow, hrows⟩ := List.forall_mem_cons.1 hrows
    rw [List.flatMap_cons, List.append_assoc, List.append_assoc, List.singleton_append,
      List.splitOn_append_cons_self_of_not_mem hrow, ih hrows, List.cons_append]

/-- The lines of the decoded bytes are the decoded rows of the bytes. -/
theorem splitOn_decode (bytes : List UInt8) :
    (Utf8.decode bytes).splitOn '\n' = (bytes.splitOn 0x0A).map Utf8.decode := by
  have hfeed : ∀ line ∈ (bytes.splitOn 0x0A).map Utf8.decode, '\n' ∉ line := by
    intro line hline hmem
    obtain ⟨row, hrow, rfl⟩ := List.mem_map.1 hline
    exact (subset_of_mem_splitOn row hrow).2 (Utf8.lineFeed_mem_of_mem_decode hmem)
  calc (Utf8.decode bytes).splitOn '\n'
      = (Utf8.decode ([0x0A].intercalate (bytes.splitOn 0x0A))).splitOn '\n' := by
        rw [List.intercalate_splitOn]
    _ = (['\n'].intercalate ((bytes.splitOn 0x0A).map Utf8.decode)).splitOn '\n' := by
        rw [Utf8.decode_intercalate]
    _ = (bytes.splitOn 0x0A).map Utf8.decode := List.splitOn_intercalate _ hfeed (by simp)

/-- A line without the carriage return at its end has lost at most that. -/
theorem dropReturn_cases (row : List Char) :
    row = SourceLines.dropReturn row ∧ row.getLast? ≠ some '\r' ∨
      row = SourceLines.dropReturn row ++ ['\r'] := by
  unfold SourceLines.dropReturn
  split
  · next h =>
    obtain ⟨front, rfl⟩ := List.getLast?_eq_some_iff.1 h
    exact .inr (by rw [List.dropLast_concat])
  · next h => exact .inl ⟨rfl, h⟩

/-- The lines of a text, in terms of its rows. -/
theorem line_ofText {text row : List Char} {r : Nat} (h : (text.splitOn '\n')[r]? = some row) :
    (SourceLines.ofText text).line (r + 1) = String.ofList (SourceLines.dropReturn row) := by
  have hr : ((r : Int) + 1 - 1).toNat = r := by omega
  unfold SourceLines.line SourceLines.ofText
  rw [if_pos (by omega), hr]
  simp [h]

theorem RowTable.line_position (t : RowTable) (p : Point) : (t.position p).line = p.row + 1 := by
  unfold RowTable.position
  split <;> rfl

/-- The column of a point of a row is the number of characters that the bytes before it decode to,
also where the file is pure ASCII and they are not decoded. -/
theorem position_eq_length_decode {bytes row : List UInt8} {p : Point}
    (hrow : (RowTable.ofBytes bytes).rows[p.row]? = some row) (hbyte : p.byte ≤ row.length) :
    (RowTable.ofBytes bytes).position p =
      ⟨p.row + 1, (Utf8.decode (row.take p.byte)).length⟩ := by
  cases hascii : (RowTable.ofBytes bytes).ascii with
  | false => simp [RowTable.position, hascii, hrow]
  | true =>
    have hsub := (subset_of_mem_splitOn row (List.mem_of_getElem? hrow)).1
    have hbytes : ∀ b ∈ row.take p.byte, b < 0x80 := fun b hb =>
      of_decide_eq_true (List.all_eq_true.1 hascii b (hsub (List.mem_of_mem_take hb)))
    rw [Utf8.decode_ascii hbytes, List.length_map, List.length_take_of_le hbyte]
    simp [RowTable.position, hascii]

/-- The column of a point of a row is at most the number of characters of the row. -/
theorem column_position_le (bytes : List UInt8) (p : Point) (row : List UInt8)
    (hrow : (RowTable.ofBytes bytes).rows[p.row]? = some row) (hbyte : p.byte ≤ row.length) :
    0 ≤ ((RowTable.ofBytes bytes).position p).column ∧
      ((RowTable.ofBytes bytes).position p).column ≤ (Utf8.decode row).length := by
  have hle := Utf8.length_decode_take_le row p.byte
  rw [position_eq_length_decode hrow hbyte]
  dsimp only
  omega

/-! ## Top theorem -/

/-- The decoded text of any bytes has a line for every row, with the same number and the decoded
bytes of the row but for one carriage return at the end, and every point in a row stands at a
character of that line or at its end. -/
theorem lines_match_rows (bytes : List UInt8) :
    (Utf8.decode bytes).splitOn '\n' = (bytes.splitOn 0x0A).map Utf8.decode ∧
    (SourceLines.ofText (Utf8.decode bytes)).length = (RowTable.ofBytes bytes).rows.length ∧
    (∀ (r : Nat) (row : List UInt8), (RowTable.ofBytes bytes).rows[r]? = some row →
      ∃ line, (SourceLines.ofText (Utf8.decode bytes)).line (r + 1) = String.ofList line ∧
        (Utf8.decode row = line ∧ line.getLast? ≠ some '\r' ∨
          Utf8.decode row = line ++ ['\r'])) ∧
    ∀ p row, (RowTable.ofBytes bytes).rows[p.row]? = some row → p.byte ≤ row.length →
      ((RowTable.ofBytes bytes).position p).line = p.row + 1 ∧
      1 ≤ ((RowTable.ofBytes bytes).position p).line ∧
      ((RowTable.ofBytes bytes).position p).line ≤
        (SourceLines.ofText (Utf8.decode bytes)).length ∧
      0 ≤ ((RowTable.ofBytes bytes).position p).column ∧
      ((RowTable.ofBytes bytes).position p).column ≤ (Utf8.decode row).length := by
  have hsplit := splitOn_decode bytes
  have hlength : (SourceLines.ofText (Utf8.decode bytes)).length =
      (RowTable.ofBytes bytes).rows.length := by
    simp [SourceLines.length, SourceLines.ofText, hsplit, RowTable.ofBytes]
  refine ⟨hsplit, hlength, fun r row hrow => ?_, fun p row hrow hbyte => ?_⟩
  · have hline : ((Utf8.decode bytes).splitOn '\n')[r]? = some (Utf8.decode row) := by
      rw [hsplit, List.getElem?_map]
      exact congrArg (Option.map Utf8.decode) hrow
    refine ⟨_, line_ofText hline, ?_⟩
    rcases dropReturn_cases (Utf8.decode row) with ⟨heq, hlast⟩ | heq
    · exact .inl ⟨heq, heq ▸ hlast⟩
    · exact .inr heq
  · have hlt : p.row < (RowTable.ofBytes bytes).rows.length :=
      (List.getElem?_eq_some_iff.1 hrow).1
    rw [RowTable.line_position, hlength]
    exact ⟨rfl, by omega, by omega, column_position_le bytes p row hrow hbyte⟩

end CallAlign
