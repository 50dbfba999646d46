import CallAlign.Alignment
import Mathlib.Algebra.Ring.Nat
import Mathlib.Tactic.SplitIfs

/-!
# Texts and their bytes

A text parses to the same source as its UTF-8 bytes: reading the bytes gives back the text, and no
ill-formed part is ever met on the way.  A character of more than one byte is a first byte, which
tells how many are owed, and then its bits in groups of six (`continuations`).  The first byte also
bounds the second: it shuts out the longer forms of a character, the surrogates and what lies above
U+10FFFF, and a character is none of these.

    units_encode             : every character of a text is one unit of its bytes
    ofText_eq_ofBytes_encode : a text and its bytes are one source
-/

namespace CallAlign

namespace Utf8

/-! ## Bytes that go on with a character -/

/-- The byte that holds the last six bits of a number. -/
def continuation (v : Nat) : UInt8 := UInt8.ofNat (v % 64 + 128)

/-- The last `n` groups of six bits of a number, the highest first. -/
def continuations (v : Nat) : Nat → List UInt8
  | 0 => []
  | n + 1 => continuation (v / 64 ^ n) :: continuations v n

theorem toNat_ofNat_of_lt {n : Nat} (h : n < 256) : (UInt8.ofNat n).toNat = n :=
  UInt8.toNat_ofNat_of_lt' h

theorem toNat_continuation (v : Nat) : (continuation v).toNat = v % 64 + 128 := by
  unfold continuation
  exact toNat_ofNat_of_lt (by omega)

theorem continuation_mem_range (v : Nat) : 0x80 ≤ continuation v ∧ continuation v ≤ 0xBF := by
  simp only [UInt8.le_iff_toNat_le, toNat_continuation, UInt8.reduceToNat]
  omega

/-- A character that owes its last bytes is read from them, when the first of these is allowed. -/
theorem unitsFrom_continuations {v n : Nat} {low high : UInt8}
    (hfirst : low ≤ continuation (v / 64 ^ n) ∧ continuation (v / 64 ^ n) ≤ high)
    (rest : List UInt8) :
    unitsFrom (.within n low high (v / 64 ^ (n + 1))) (continuations v (n + 1) ++ rest) =
      some (Char.ofNat v) :: units rest := by
  have hbits (m : Nat) : v / 64 ^ (m + 1) * 64 + (continuation (v / 64 ^ m)).toNat % 64 =
      v / 64 ^ m := by
    rw [toNat_continuation, Nat.pow_succ, ← Nat.div_div_eq_div_mul]
    omega
  -- by induction on the bytes owed: all but the first may have any six bits
  induction n generalizing low high with
  | zero =>
    have hbits := hbits 0
    simp only [Nat.zero_add, Nat.pow_zero, Nat.pow_one, Nat.div_one] at hfirst hbits ⊢
    simp [continuations, unitsFrom, step, hfirst, hbits, units]
  | succ n ih =>
    rw [continuations, List.cons_append, unitsFrom]
    simp only [step, hfirst, decide_true, Bool.and_self, if_true, hbits, List.nil_append]
    exact ih (continuation_mem_range (v / 64 ^ n))

/-! ## First bytes of characters -/

/-- The first byte of two. -/
theorem first_of_two {v : Nat} (hlow : 0x80 ≤ v) (hhigh : v < 0x800) :
    first (UInt8.ofNat (v / 64 % 32 + 192)) = ([], .within 0 0x80 0xBF (v / 64)) := by
  have hb : (UInt8.ofNat (v / 64 % 32 + 192)).toNat = v / 64 + 192 := by
    rw [toNat_ofNat_of_lt (by omega)]
    omega
  have hbits : (v / 64 + 192) % 32 = v / 64 := by omega
  unfold first
  simp only [UInt8.lt_iff_toNat_lt, UInt8.reduceToNat, hb]
  rw [if_neg (by omega), if_neg (by omega), if_pos (by omega), hbits]

/-- The first byte of three allows the second, unless the number is that of a surrogate. -/
theorem first_of_three {v : Nat} (hlow : 0x800 ≤ v) (hhigh : v < 0x10000)
    (hscalar : v < 0xD800 ∨ 0xDFFF < v) :
    ∃ low high, first (UInt8.ofNat (v / 4096 % 16 + 224)) = ([], .within 1 low high (v / 4096)) ∧
      low ≤ continuation (v / 64) ∧ continuation (v / 64) ≤ high := by
  have hb : (UInt8.ofNat (v / 4096 % 16 + 224)).toNat = v / 4096 + 224 := by
    rw [toNat_ofNat_of_lt (by omega)]
    omega
  have hbits : (v / 4096 + 224) % 16 = v / 4096 := by omega
  unfold first
  simp only [UInt8.lt_iff_toNat_lt, UInt8.le_iff_toNat_le, ← UInt8.toNat_inj, UInt8.reduceToNat,
    toNat_continuation, hb]
  rw [if_neg (by omega), if_neg (by omega), if_neg (by omega)]
  by_cases hE0 : v / 4096 = 0
  · refine ⟨0xA0, 0xBF, by rw [if_pos (by omega), hE0], ?_⟩
    simp only [UInt8.reduceToNat]
    omega
  rw [if_neg (by omega)]
  by_cases hED : v / 4096 = 13
  · refine ⟨0x80, 0x9F, by rw [if_pos (by omega), hED], ?_⟩
    simp only [UInt8.reduceToNat]
    omega
  · refine ⟨0x80, 0xBF, by rw [if_neg (by omega), if_pos (by omega), hbits], ?_⟩
    simp only [UInt8.reduceToNat]
    omega

/-- The first byte of four allows the second, up to U+10FFFF. -/
theorem first_of_four {v : Nat} (hlow : 0x10000 ≤ v) (hhigh : v < 0x110000) :
    ∃ low high,
      first (UInt8.ofNat (v / 262144 % 8 + 240)) = ([], .within 2 low high (v / 262144)) ∧
        low ≤ continuation (v / 4096) ∧ continuation (v / 4096) ≤ high := by
  have hb : (UInt8.ofNat (v / 262144 % 8 + 240)).toNat = v / 262144 + 240 := by
    rw [toNat_ofNat_of_lt (by omega)]
    omega
  have hbits : (v / 262144 + 240) % 8 = v / 262144 := by omega
  unfold first
  simp only [UInt8.lt_iff_toNat_lt, UInt8.le_iff_toNat_le, ← UInt8.toNat_inj, UInt8.reduceToNat,
    toNat_continuation, hb]
  rw [if_neg (by omega), if_neg (by omega), if_neg (by omega), if_neg (by omega),
    if_neg (by omega), if_neg (by omega)]
  by_cases hF0 : v / 262144 = 0
  · refine ⟨0x90, 0xBF, by rw [if_pos (by omega), hF0], ?_⟩
    simp only [UInt8.reduceToNat]
    omega
  rw [if_neg (by omega)]
  by_cases hF4 : v / 262144 = 4
  · refine ⟨0x80, 0x8F, by rw [if_neg (by omega), if_pos (by omega), hF4], ?_⟩
    simp only [UInt8.reduceToNat]
    omega
  · refine ⟨0x80, 0xBF, by rw [if_pos (by omega), hbits], ?_⟩
    simp only [UInt8.reduceToNat]
    omega

/-! ## Characters and texts -/

/-- A character is read from its bytes, whatever follows. -/
theorem units_utf8EncodeChar_append (c : Char) (rest : List UInt8) :
    units (String.utf8EncodeChar c ++ rest) = some c :: units rest := by
  have hc : Char.ofNat c.val.toNat = c := Char.ofNat_toNat c
  have hvalid : c.val.toNat < 0xD800 ∨ 0xDFFF < c.val.toNat ∧ c.val.toNat < 0x110000 := c.valid
  -- a first byte that owes `n + 1` bytes, and these
  have hread {b low high : UInt8} {n : Nat}
      (hb : first b = ([], .within n low high (c.val.toNat / 64 ^ (n + 1))))
      (hnext : low ≤ continuation (c.val.toNat / 64 ^ n) ∧
        continuation (c.val.toNat / 64 ^ n) ≤ high) :
      units (b :: continuations c.val.toNat (n + 1) ++ rest) = some c :: units rest := by
    rw [List.cons_append, units, unitsFrom, step, hb, List.nil_append,
      unitsFrom_continuations hnext, hc]
  unfold String.utf8EncodeChar
  dsimp only
  generalize c.val.toNat = v at hc hvalid hread
  split_ifs with h₁ h₂ h₃
  · have hb : (UInt8.ofNat v).toNat = v := toNat_ofNat_of_lt (by omega)
    have hascii : UInt8.ofNat v < 0x80 := by
      rw [UInt8.lt_iff_toNat_lt, hb]
      simp only [UInt8.reduceToNat]
      omega
    rw [List.singleton_append, units, unitsFrom, step, first, if_pos hascii, hb, hc]
    rfl
  · have hread := hread (n := 0) (first_of_two (v := v) (by omega) (by omega))
      (continuation_mem_range _)
    simpa [continuations, continuation] using hread
  · obtain ⟨low, high, hb, hnext⟩ := first_of_three (v := v) (by omega) (by omega) (by omega)
    have hread := hread (n := 1) hb (by simpa using hnext)
    simpa [continuations, continuation] using hread
  · obtain ⟨low, high, hb, hnext⟩ := first_of_four (v := v) (by omega) (by omega)
    have hread := hread (n := 2) hb (by simpa using hnext)
    simpa [continuations, continuation] using hread

/-- Every character of a text is one unit of its bytes. -/
theorem units_encode (text : List Char) : units (encode text) = text.map some := by
  induction text with
  | nil => rfl
  | cons c text ih =>
    unfold encode at ih ⊢
    rw [List.flatMap_cons, units_utf8EncodeChar_append, ih, List.map_cons]

/-- Reading undoes encoding. -/
theorem decode_encode (text : List Char) : decode (encode text) = text := by
  simp [decode, units_encode, Function.comp_def]

theorem mapM_id_map_some (text : List Char) : (text.map some).mapM id = some text := by
  induction text with
  | nil => rfl
  | cons c text ih => simp [ih]

theorem decode?_encode (text : List Char) : decode? (encode text) = some text := by
  rw [decode?, units_encode, mapM_id_map_some]

end Utf8

/-! ## Top theorem -/

/-- **Texts and their bytes.**  The units of the UTF-8 bytes of a text are its characters, so that
the text is what both decoders read, without any U+FFFD but its own.  Parsing the text or its bytes
therefore gives the same lines and the same tree, with the same positions of all nodes, and the
check finds the same calls and the same offenses. -/
theorem ofText_eq_ofBytes_encode (parse : Parser) (text : List Char) :
    let bytes := Utf8.encode text
    let fromText := Source.ofText parse text
    let fromBytes := Source.ofBytes parse bytes
    Utf8.units bytes = text.map some ∧ Utf8.decode bytes = text ∧
      Utf8.decode? bytes = some text ∧ fromText.lines = fromBytes.lines ∧
      fromText.root = fromBytes.root ∧ fromText.hasError = fromBytes.hasError ∧
      callSites fromText.root = callSites fromBytes.root ∧
      inspect fromText.root fromText.lines = inspect fromBytes.root fromBytes.lines := by
  intro bytes fromText fromBytes
  have hdecode : Utf8.decode bytes = text := Utf8.decode_encode text
  have hlines : fromText.lines = fromBytes.lines := by
    show SourceLines.ofText text = SourceLines.ofText (Utf8.decode bytes)
    rw [hdecode]
  -- both trees are read by the rows of the same bytes
  have hroot : fromText.root = fromBytes.root := rfl
  refine ⟨Utf8.units_encode text, hdecode, Utf8.decode?_encode text, hlines, hroot, rfl, ?_, ?_⟩
  · rw [hroot]
  · rw [hroot, hlines]

end CallAlign
