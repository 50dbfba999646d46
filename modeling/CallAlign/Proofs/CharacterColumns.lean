import CallAlign.Proofs.DecodedRows

/-!
# Columns count characters

A column is read off the bytes before a point, and these may end inside a character.  Told by the
decoding of the whole row, it is the number of characters whose first byte stands before the point:
whatever bytes a cut leaves of a character, or of an ill-formed part, they decode to one character.

The bytes of each character need no decoder of their own to be told.  A row can be cut into pieces
that decode one by one to the characters of the row (`CharacterBytes`), and however it is cut so,
the bytes at which pieces begin are those that do not go on with a character
(`CharacterBytes.begins_eq`): a cut anywhere else gives more characters than there are
(`begins_flatten_eq_or_lt`).

    CharacterBytes.length_decode_take : what a prefix decodes to, by the first bytes in it
    position_counts_characters        : the column of any point of a row
-/

namespace CallAlign

namespace Utf8

/-! ## The bytes of each character -/

/-- `pieces` are the bytes of the characters that `bs` decode to, one after the other: together
they are `bs`, and each alone decodes to its character. -/
structure CharacterBytes (bs : List UInt8) (pieces : List (List UInt8)) : Prop where
  flatten_eq : pieces.flatten = bs
  map_decode : pieces.map decode = (decode bs).map ([·])

instance (bs : List UInt8) (pieces : List (List UInt8)) : Decidable (CharacterBytes bs pieces) :=
  decidable_of_iff (pieces.flatten = bs ∧ pieces.map decode = (decode bs).map ([·]))
    ⟨fun h => ⟨h.1, h.2⟩, fun h => ⟨h.1, h.2⟩⟩

/-- Where each character begins, by the number of bytes before it. -/
def firstBytes (pieces : List (List UInt8)) : List Nat :=
  (List.range pieces.length).map fun i => (pieces.take i).flatten.length

theorem firstBytes_cons (piece : List UInt8) (pieces : List (List UInt8)) :
    firstBytes (piece :: pieces) = 0 :: (firstBytes pieces).map (piece.length + ·) := by
  simp [firstBytes, List.range_succ_eq_map, Function.comp_def]

/-- Some bytes are a piece that ends what has begun, and pieces of one unit each. -/
theorem exists_pieces (s : State) (bs : List UInt8) :
    ∃ (piece : List UInt8) (pieces : List (List UInt8)), bs = piece ++ pieces.flatten ∧
      unitsFrom s bs = unitsFrom s piece ++ pieces.flatMap units ∧
      (unitsFrom s piece).length = s.finish.length ∧ ∀ p ∈ pieces, (units p).length = 1 := by
  induction bs generalizing s with
  | nil => exact ⟨[], [], by simp, by simp, by simp [unitsFrom], by simp⟩
  | cons b bs ih =>
    obtain ⟨piece, pieces, hbs, hunits, hlength, hone⟩ := ih (step s b).2
    cases hgoes : s.goesOn b with
    | true =>
      refine ⟨b :: piece, pieces, by simp [hbs], ?_, ?_, hone⟩
      · rw [unitsFrom, hunits, unitsFrom, List.append_assoc]
      · rw [unitsFrom, List.length_append, hlength, length_step, hgoes]
        rfl
    | false =>
      have hstep := step_of_not_goesOn hgoes
      have hready : units (b :: piece) = (first b).1 ++ unitsFrom (first b).2 piece := rfl
      rw [hstep] at hunits hlength
      refine ⟨[], (b :: piece) :: pieces, by simp [hbs], ?_, rfl, List.forall_mem_cons.2 ⟨?_, hone⟩⟩
      · rw [List.flatMap_cons, hready, unitsFrom.eq_2, hstep, hunits]
        simp [unitsFrom]
      · rw [hready, List.length_append, hlength, length_first]

/-- All bytes can be cut into the bytes of their characters. -/
theorem exists_characterBytes (bs : List UInt8) : ∃ pieces, CharacterBytes bs pieces := by
  obtain ⟨piece, pieces, hbs, hunits, hlength, hone⟩ := exists_pieces .ready bs
  have hpiece : piece = [] := by
    cases piece with
    | nil => rfl
    | cons b piece =>
      rw [length_unitsFrom, begins, List.count_cons] at hlength
      simp [State.goesOn] at hlength
  subst hpiece
  have hdecode : decode bs = pieces.flatMap decode := by
    rw [decode, units, hunits, List.map_append, List.map_flatMap]
    rfl
  refine ⟨pieces, hbs.symm, ?_⟩
  rw [hdecode]
  clear hbs hunits hdecode
  induction pieces with
  | nil => rfl
  | cons piece pieces ih =>
    obtain ⟨hpiece, hone⟩ := List.forall_mem_cons.1 hone
    obtain ⟨u, hu⟩ := List.length_eq_one_iff.1 hpiece
    have hc : decode piece = [u.getD replacement] := by simp [decode, hu]
    rw [List.map_cons, ih hone, List.flatMap_cons, hc]
    rfl

/-! ## Cuts inside a character -/

theorem first_of_continuation {b : UInt8} (hlow : 0x80 ≤ b) (hhigh : b ≤ 0xBF) :
    first b = ([none], .ready) := by
  have hout : ¬ b < 0x80 := by simpa using hlow
  have hin : b < 0xC2 := by
    simp only [UInt8.le_iff_toNat_le, UInt8.lt_iff_toNat_lt, UInt8.reduceToNat] at hhigh ⊢
    omega
  rw [first, if_neg hout, if_pos hin]

/-- A byte that can go on with a character is ill-formed between characters. -/
theorem first_of_goesOn {s : State} (hs : s.Sound) {b : UInt8} (h : s.goesOn b = true) :
    first b = ([none], .ready) := by
  cases s with
  | ready => cases h
  | within owed low high bits =>
    simp only [State.goesOn, Bool.and_eq_true, decide_eq_true_eq] at h
    exact first_of_continuation (UInt8.le_trans hs.1 h.1) (UInt8.le_trans h.2 hs.2.1)

/-- What has begun takes bytes from the characters that follow, so that they are fewer, or else
leaves them all as they are. -/
theorem begins_eq_or_lt {s : State} (hs : s.Sound) (bs : List UInt8) :
    begins s bs = begins .ready bs ∨
      (begins s bs).count true < (begins .ready bs).count true := by
  induction bs generalizing s with
  | nil => exact .inl rfl
  | cons b bs ih =>
    cases hgoes : s.goesOn b with
    | false =>
      left
      rw [begins, begins, hgoes, step_of_not_goesOn hgoes]
      rfl
    | true =>
      right
      have hready : begins .ready (b :: bs) = true :: begins .ready bs := by
        rw [begins, step, first_of_goesOn hs hgoes]
        rfl
      have hs' : begins s (b :: bs) = false :: begins (step s b).2 bs := by
        rw [begins, hgoes]
        rfl
      rw [hready, hs', List.count_cons_self, List.count_cons_of_ne Bool.false_ne_true]
      rcases ih (step_sound hs b) with heq | hlt
      · rw [heq]
        omega
      · omega

theorem begins_append (s : State) (bs cs : List UInt8) :
    begins s (bs ++ cs) = begins s bs ++ begins (run s bs) cs := by
  induction bs generalizing s with
  | nil => rfl
  | cons b bs ih => simp [begins, run, ih]

/-- Pieces that are decoded one by one begin where the characters of the whole do, or they give more
characters. -/
theorem begins_flatten_eq_or_lt (pieces : List (List UInt8)) :
    begins .ready pieces.flatten = pieces.flatMap (begins .ready) ∨
      (begins .ready pieces.flatten).count true <
        (pieces.flatMap (begins .ready)).count true := by
  induction pieces with
  | nil => exact .inl rfl
  | cons piece pieces ih =>
    have hrest := begins_eq_or_lt (run_sound (s := .ready) trivial piece) pieces.flatten
    rw [List.flatten_cons, begins_append, List.flatMap_cons, List.count_append, List.count_append]
    rcases hrest with hrest | hrest <;> rcases ih with ih | ih
    · exact .inl (by rw [hrest, ih])
    · exact .inr (by rw [hrest]; omega)
    · exact .inr (by rw [← ih]; omega)
    · exact .inr (by omega)

/-! ## Counting first bytes -/

/-- For each byte of some pieces, whether it is the first of a piece. -/
def marks (pieces : List (List UInt8)) : List Bool :=
  pieces.flatMap fun piece => true :: List.replicate (piece.length - 1) false

theorem length_mark {piece : List UInt8} (h : piece ≠ []) :
    (true :: List.replicate (piece.length - 1) false).length = piece.length := by
  have hpos := List.length_pos_iff.2 h
  rw [List.length_cons, List.length_replicate]
  omega

/-- The marks in a prefix are the first bytes in it. -/
theorem count_take_marks (pieces : List (List UInt8)) (hne : [] ∉ pieces) (n : Nat) :
    ((marks pieces).take n).count true = (firstBytes pieces).countP (· < n) := by
  induction pieces generalizing n with
  | nil => simp [firstBytes, marks]
  | cons piece pieces ih =>
    obtain ⟨hpiece, hne⟩ := List.ne_and_not_mem_of_not_mem_cons hne
    have hmarks : marks (piece :: pieces) =
        (true :: List.replicate (piece.length - 1) false) ++ marks pieces := rfl
    have hlength := length_mark hpiece.symm
    have hlater : (fun k => decide (k < n)) ∘ (piece.length + ·) =
        fun k => decide (k < n - piece.length) := by
      funext k
      simp only [Function.comp_apply, decide_eq_decide]
      omega
    rw [hmarks, List.take_append, List.count_append, hlength, ih hne, firstBytes_cons,
      List.countP_cons, List.countP_map, hlater]
    cases n with
    | zero => simp
    | succ n => simp [List.take_replicate, List.count_replicate, Nat.add_comm]

section

variable {bs : List UInt8} {pieces : List (List UInt8)}

theorem CharacterBytes.count_eq_one (h : CharacterBytes bs pieces) {piece : List UInt8}
    (hpiece : piece ∈ pieces) : (begins .ready piece).count true = 1 := by
  have hmem := List.mem_map_of_mem (f := decode) hpiece
  rw [h.map_decode] at hmem
  obtain ⟨c, -, hc⟩ := List.mem_map.1 hmem
  rw [← length_decode, ← hc, List.length_singleton]

theorem CharacterBytes.nil_notMem (h : CharacterBytes bs pieces) : [] ∉ pieces :=
  fun hmem => absurd (h.count_eq_one hmem) (by decide)

/-- The bytes of one character are its first byte and bytes that go on with it. -/
theorem CharacterBytes.begins_eq_of_mem (h : CharacterBytes bs pieces) {piece : List UInt8}
    (hpiece : piece ∈ pieces) :
    begins .ready piece = true :: List.replicate (piece.length - 1) false := by
  have hone := h.count_eq_one hpiece
  cases piece with
  | nil => cases hone
  | cons b rest =>
    rw [begins] at hone ⊢
    have hnone : true ∉ begins (step .ready b).2 rest := by
      simpa [State.goesOn, List.count_eq_zero] using hone
    refine congrArg (true :: ·) (List.eq_replicate_iff.2 ⟨?_, fun x hx => ?_⟩)
    · exact length_begins (step .ready b).2 rest
    · cases x with
      | false => rfl
      | true => exact absurd hx hnone

/-- The bytes with which characters begin are the first ones of the pieces. -/
theorem CharacterBytes.begins_eq (h : CharacterBytes bs pieces) :
    begins .ready bs = marks pieces := by
  have heach : pieces.flatMap (begins .ready) = marks pieces := by
    rw [marks, List.flatMap_def, List.flatMap_def]
    exact congrArg List.flatten (List.map_congr_left fun piece => h.begins_eq_of_mem)
  have hcount : (begins .ready bs).count true = (pieces.flatMap (begins .ready)).count true := by
    have hlength := congrArg List.length h.map_decode
    rw [List.length_map, List.length_map, length_decode] at hlength
    have hone : pieces.map (List.count true ∘ begins .ready) = List.replicate pieces.length 1 :=
      List.eq_replicate_iff.2 ⟨List.length_map _, by
        simpa using fun piece => h.count_eq_one⟩
    rw [← hlength, List.count_flatMap, hone, List.sum_replicate_nat, Nat.mul_one]
  rcases begins_flatten_eq_or_lt pieces with heq | hlt
  · rw [← h.flatten_eq, heq, heach]
  · rw [h.flatten_eq, hcount] at hlt
    exact absurd hlt (Nat.lt_irrefl _)

/-- A prefix decodes to as many characters as have their first byte in it. -/
theorem CharacterBytes.length_decode_take (h : CharacterBytes bs pieces) (n : Nat) :
    (decode (bs.take n)).length = (firstBytes pieces).countP (· < n) := by
  rw [Utf8.length_decode_take, h.begins_eq, count_take_marks pieces h.nil_notMem]

end

/-- One byte more in a prefix gives at most one character more, and never one less. -/
theorem length_decode_take_succ (bs : List UInt8) (n : Nat) :
    (decode (bs.take n)).length ≤ (decode (bs.take (n + 1))).length ∧
      (decode (bs.take (n + 1))).length ≤ (decode (bs.take n)).length + 1 := by
  rw [length_decode_take, length_decode_take, List.take_add_one, List.count_append]
  have hlast := List.count_le_length (a := true) (l := ((begins .ready bs)[n]?).toList)
  have hone : ((begins .ready bs)[n]?).toList.length ≤ 1 := by
    cases (begins .ready bs)[n]? <;> simp
  omega

end Utf8

/-! ## Top theorem -/

/-- For any bytes and any row of them, the column of a point of the row is the number of characters
of the whole row that have their first byte before the point, also when the point stands inside a
character.  On a row of ASCII bytes it does not matter whether they are decoded, and from one byte
to the next the column stays or grows by one. -/
theorem position_counts_characters (bytes : List UInt8) (r : Nat) (row : List UInt8)
    (hrow : (RowTable.ofBytes bytes).rows[r]? = some row) :
    let t := RowTable.ofBytes bytes
    (∃ pieces, Utf8.CharacterBytes row pieces) ∧
      (∀ pieces, Utf8.CharacterBytes row pieces → ∀ n ≤ row.length,
        t.position ⟨r, n⟩ = ⟨r + 1, (Utf8.firstBytes pieces).countP (· < n)⟩) ∧
      ((∀ b ∈ row, b < 0x80) → ∀ n ≤ row.length,
        { t with ascii := true }.position ⟨r, n⟩ = { t with ascii := false }.position ⟨r, n⟩) ∧
      ∀ n < row.length, (t.position ⟨r, n⟩).column ≤ (t.position ⟨r, n + 1⟩).column ∧
        (t.position ⟨r, n + 1⟩).column ≤ (t.position ⟨r, n⟩).column + 1 := by
  intro t
  have hposition : ∀ n ≤ row.length,
      t.position ⟨r, n⟩ = ⟨r + 1, (Utf8.decode (row.take n)).length⟩ :=
    fun n hn => position_eq_length_decode hrow hn
  refine ⟨Utf8.exists_characterBytes row, fun pieces hpieces n hn => ?_, fun hascii n hn => ?_,
    fun n hn => ?_⟩
  · rw [hposition n hn, hpieces.length_decode_take]
  · have hprefix : ∀ b ∈ row.take n, b < 0x80 := fun b hb => hascii b (List.mem_of_mem_take hb)
    have hdecode : (Utf8.decode (row.take n)).length = n := by
      rw [Utf8.decode_ascii hprefix, List.length_map, List.length_take_of_le hn]
    have hrow' : t.rows[r]? = some row := hrow
    simp [RowTable.position, hrow', hdecode]
  · have hstep := Utf8.length_decode_take_succ row n
    rw [hposition n (by omega), hposition (n + 1) hn]
    dsimp only
    omega

/-- A line feed, then `é`, the first two of the three bytes of a character, and `(`. -/
def cutRowBytes : List UInt8 := [0x0A, 0xC3, 0xA9, 0xE2, 0x82, 0x28]

/-- Between the two bytes that are left of a character, the character counts already. -/
theorem position_counts_cut_character :
    (RowTable.ofBytes cutRowBytes).rows[1]? = some [0xC3, 0xA9, 0xE2, 0x82, 0x28] ∧
      Utf8.CharacterBytes [0xC3, 0xA9, 0xE2, 0x82, 0x28] [[0xC3, 0xA9], [0xE2, 0x82], [0x28]] ∧
      (RowTable.ofBytes cutRowBytes).position ⟨1, 3⟩ = ⟨2, 2⟩ ∧
      (RowTable.ofBytes cutRowBytes).position ⟨1, 4⟩ = ⟨2, 2⟩ := by
  have hrow : (RowTable.ofBytes cutRowBytes).rows[1]? =
      some [0xC3, 0xA9, 0xE2, 0x82, 0x28] := by decide
  have hpieces : Utf8.CharacterBytes [0xC3, 0xA9, 0xE2, 0x82, 0x28]
      [[0xC3, 0xA9], [0xE2, 0x82], [0x28]] := by decide
  have hposition := (position_counts_characters cutRowBytes 1 _ hrow).2.1 _ hpieces
  exact ⟨hrow, hpieces, (hposition 3 (by decide)).trans (by decide),
    (hposition 4 (by decide)).trans (by decide)⟩

end CallAlign
