import CallAlign.Proofs.EncodedText

/-!
# Bytes without ill-formed parts

Bytes that the strict decoder accepts are the UTF-8 bytes of the text that it reads, so that it
accepts the bytes of texts and nothing else.  Inside a character the bytes read so far are held
against those that may follow: whatever bytes the machine still allows, all of them together are the
bytes of one character (`State.Holds`).

    advances_first       : a first byte begins the bytes of a character
    advances_step        : a byte ends a character or goes on with it
    decode?_eq_some_iff  : the bytes that the strict decoder accepts
-/

namespace CallAlign.Utf8

/-! ## Bytes of one character -/

theorem toNat_val_ofNat {v : Nat} (h : v < 0xD800 ∨ 0xDFFF < v ∧ v < 0x110000) :
    (Char.ofNat v).val.toNat = v := by
  rw [Char.ofNat, dif_pos h]
  rfl

theorem ofNat_eq {b : UInt8} {v : Nat} (h : v = b.toNat) : UInt8.ofNat v = b := by
  rw [h, UInt8.ofNat_toNat]

theorem encode_one {b : UInt8} (hb : b.toNat < 0x80) :
    String.utf8EncodeChar (Char.ofNat b.toNat) = [b] := by
  unfold String.utf8EncodeChar
  rw [toNat_val_ofNat (by omega)]
  dsimp only
  rw [if_pos (by omega), UInt8.ofNat_toNat]

theorem encode_two {b c : UInt8} (hb : 0xC2 ≤ b.toNat ∧ b.toNat < 0xE0)
    (hc : 0x80 ≤ c.toNat ∧ c.toNat ≤ 0xBF) :
    String.utf8EncodeChar (Char.ofNat (b.toNat % 32 * 64 + c.toNat % 64)) = [b, c] := by
  unfold String.utf8EncodeChar
  rw [toNat_val_ofNat (by omega)]
  dsimp only
  rw [if_neg (by omega), if_pos (by omega), ofNat_eq (b := b) (by omega),
    ofNat_eq (b := c) (by omega)]

theorem encode_three {b c d : UInt8} (hb : 0xE0 ≤ b.toNat ∧ b.toNat < 0xF0)
    (hc : 0x80 ≤ c.toNat ∧ c.toNat ≤ 0xBF) (hd : 0x80 ≤ d.toNat ∧ d.toNat ≤ 0xBF)
    (hlong : b.toNat = 0xE0 → 0xA0 ≤ c.toNat) (hscalar : b.toNat = 0xED → c.toNat ≤ 0x9F) :
    String.utf8EncodeChar
      (Char.ofNat ((b.toNat % 16 * 64 + c.toNat % 64) * 64 + d.toNat % 64)) = [b, c, d] := by
  unfold String.utf8EncodeChar
  rw [toNat_val_ofNat (by omega)]
  dsimp only
  rw [if_neg (by omega), if_neg (by omega), if_pos (by omega), ofNat_eq (b := b) (by omega),
    ofNat_eq (b := c) (by omega), ofNat_eq (b := d) (by omega)]

theorem encode_four {b c d e : UInt8} (hb : 0xF0 ≤ b.toNat ∧ b.toNat ≤ 0xF4)
    (hc : 0x80 ≤ c.toNat ∧ c.toNat ≤ 0xBF) (hd : 0x80 ≤ d.toNat ∧ d.toNat ≤ 0xBF)
    (he : 0x80 ≤ e.toNat ∧ e.toNat ≤ 0xBF)
    (hlong : b.toNat = 0xF0 → 0x90 ≤ c.toNat) (hlast : b.toNat = 0xF4 → c.toNat ≤ 0x8F) :
    String.utf8EncodeChar (Char.ofNat
      (((b.toNat % 8 * 64 + c.toNat % 64) * 64 + d.toNat % 64) * 64 + e.toNat % 64)) =
        [b, c, d, e] := by
  unfold String.utf8EncodeChar
  rw [toNat_val_ofNat (by omega)]
  dsimp only
  rw [if_neg (by omega), if_neg (by omega), if_neg (by omega), ofNat_eq (b := b) (by omega),
    ofNat_eq (b := c) (by omega), ofNat_eq (b := d) (by omega), ofNat_eq (b := e) (by omega)]

/-! ## The machine -/

/-- Some bytes of a character were read, and `n + 1` more are owed, the next one between `low` and
`high`: whichever of the allowed bytes follow, all of them are the bytes of one character. -/
def Awaits : Nat → UInt8 → UInt8 → Nat → List UInt8 → Prop
  | 0, low, high, bits, read => ∀ b, low ≤ b → b ≤ high →
    String.utf8EncodeChar (Char.ofNat (bits * 64 + b.toNat % 64)) = read ++ [b]
  | n + 1, low, high, bits, read => ∀ b, low ≤ b → b ≤ high →
    Awaits n 0x80 0xBF (bits * 64 + b.toNat % 64) (read ++ [b])

/-- The bytes read of a character fit the state. -/
def State.Holds : State → List UInt8 → Prop
  | .ready, read => read = []
  | .within owed low high bits, read => Awaits owed low high bits read

/-- The bytes read are those of a character, or the next state holds them. -/
def Advances (next : List (Option Char) × State) (read : List UInt8) : Prop :=
  next.1 = [] ∧ next.2.Holds read ∨
    ∃ c, next = ([some c], .ready) ∧ String.utf8EncodeChar c = read

theorem awaits_two {b : UInt8} (hb : 0xC2 ≤ b.toNat ∧ b.toNat < 0xE0) :
    Awaits 0 0x80 0xBF (b.toNat % 32) [b] := by
  intro c hlow hhigh
  rw [UInt8.le_iff_toNat_le] at hlow hhigh
  exact encode_two hb ⟨hlow, hhigh⟩

theorem awaits_three {b low high : UInt8} {bits : Nat} (hb : 0xE0 ≤ b.toNat ∧ b.toNat < 0xF0)
    (hbits : bits = b.toNat % 16) (hrange : 0x80 ≤ low.toNat ∧ high.toNat ≤ 0xBF)
    (hlong : b.toNat = 0xE0 → 0xA0 ≤ low.toNat) (hscalar : b.toNat = 0xED → high.toNat ≤ 0x9F) :
    Awaits 1 low high bits [b] := by
  intro c hlow hhigh d hlow' hhigh'
  rw [UInt8.le_iff_toNat_le] at hlow hhigh hlow' hhigh'
  rw [hbits]
  exact encode_three hb (by omega) ⟨hlow', hhigh'⟩ (by omega) (by omega)

theorem awaits_four {b low high : UInt8} {bits : Nat} (hb : 0xF0 ≤ b.toNat ∧ b.toNat ≤ 0xF4)
    (hbits : bits = b.toNat % 8) (hrange : 0x80 ≤ low.toNat ∧ high.toNat ≤ 0xBF)
    (hlong : b.toNat = 0xF0 → 0x90 ≤ low.toNat) (hlast : b.toNat = 0xF4 → high.toNat ≤ 0x8F) :
    Awaits 2 low high bits [b] := by
  intro c hlow hhigh d hlow' hhigh' e hlow'' hhigh''
  rw [UInt8.le_iff_toNat_le] at hlow hhigh hlow' hhigh' hlow'' hhigh''
  rw [hbits]
  exact encode_four hb (by omega) ⟨hlow', hhigh'⟩ ⟨hlow'', hhigh''⟩ (by omega) (by omega)

/-- A first byte is a character, or begins the bytes of one. -/
theorem advances_first {b : UInt8} (h : none ∉ (first b).1) : Advances (first b) [b] := by
  unfold first at h ⊢
  simp only [UInt8.lt_iff_toNat_lt, ← UInt8.toNat_inj, UInt8.reduceToNat] at h ⊢
  split_ifs at h ⊢ with hascii hlow htwo hE0 hED hthree hF0 hfour hF4
  · exact .inr ⟨_, rfl, encode_one hascii⟩
  · simp at h
  · exact .inl ⟨rfl, awaits_two (by omega)⟩
  · exact .inl ⟨rfl, awaits_three (by omega) (by omega) (by decide) (fun _ => by decide) (by omega)⟩
  · exact .inl ⟨rfl, awaits_three (by omega) (by omega) (by decide) (by omega) (fun _ => by decide)⟩
  · exact .inl ⟨rfl, awaits_three (by omega) rfl (by decide) (by omega) (by omega)⟩
  · exact .inl ⟨rfl, awaits_four (by omega) (by omega) (by decide) (fun _ => by decide) (by omega)⟩
  · exact .inl ⟨rfl, awaits_four (by omega) rfl (by decide) (by omega) (by omega)⟩
  · exact .inl ⟨rfl, awaits_four (by omega) (by omega) (by decide) (by omega) (fun _ => by decide)⟩
  · simp at h

/-- A byte that is not ill-formed ends a character or goes on with it. -/
theorem advances_step {s : State} {b : UInt8} {read : List UInt8} (hs : s.Holds read)
    (h : none ∉ (step s b).1) : Advances (step s b) (read ++ [b]) := by
  cases s with
  | ready =>
    cases hs
    exact advances_first h
  | within owed low high bits =>
    by_cases hb : low ≤ b ∧ b ≤ high
    · cases owed with
      | zero =>
        refine .inr ⟨_, ?_, hs b hb.1 hb.2⟩
        simp [step, hb]
      | succ n =>
        have hstep : step (.within (n + 1) low high bits) b =
            ([], .within n 0x80 0xBF (bits * 64 + b.toNat % 64)) := by
          simp [step, hb]
        rw [hstep]
        exact .inl ⟨rfl, hs b hb.1 hb.2⟩
    · have hstep : step (.within owed low high bits) b = (none :: (first b).1, (first b).2) := by
        simp [step, hb]
      rw [hstep] at h
      simp at h

/-- The units of a text are read from its bytes only. -/
theorem append_eq_encode {s : State} {read bs : List UInt8} {text : List Char}
    (hs : s.Holds read) (h : unitsFrom s bs = text.map some) : read ++ bs = encode text := by
  induction bs generalizing s read text with
  | nil =>
    cases s with
    | ready =>
      cases hs
      obtain rfl := List.map_eq_nil_iff.1 h.symm
      rfl
    | within => cases text <;> cases h
  | cons b bs ih =>
    rw [unitsFrom] at h
    have hnone : none ∉ (step s b).1 := by
      intro hmem
      have := List.mem_append_left (unitsFrom (step s b).2 bs) hmem
      rw [h] at this
      simp at this
    rcases advances_step hs hnone with ⟨hunits, hnext⟩ | ⟨c, hstep, hc⟩
    · rw [hunits] at h
      simpa using ih hnext h
    · rw [hstep] at h
      obtain ⟨d, text, rfl, hd, hrest⟩ := List.map_eq_cons_iff.1 h.symm
      cases hd
      have hbs : [] ++ bs = encode text := ih (s := .ready) rfl hrest.symm
      rw [List.append_cons, ← hc, ← List.nil_append bs, hbs]
      rfl

theorem decode?_eq_some_iff {bs : List UInt8} {text : List Char} :
    decode? bs = some text ↔ bs = encode text := by
  constructor
  · intro h
    exact append_eq_encode (s := .ready) rfl (mapM_id_eq_some h)
  · rintro rfl
    exact decode?_encode text

theorem decode?_eq_none_iff {bs : List UInt8} :
    decode? bs = none ↔ ∀ text, bs ≠ encode text := by
  simp only [Option.eq_none_iff_forall_ne_some, ne_eq, decode?_eq_some_iff]

end CallAlign.Utf8
