import CallAlign.Toml.Scalar

/-!
# What readers of scalars leave

A reader of TOML leaves the end of what it was given (`Leaves`).  One that can fail for too many
digits fails only when so many digits stand in the text, one beside the other but for underscores
between them (`Reads`).

    Reads.bind       : one reader after the other
    reads_decimal    : a decimal number, and when it is not read
    reads_number     : any number
    leaves_moment?   : dates and times
    number_of_digits : an integer with too many digits is not read
-/

namespace CallAlign.Toml

/-! ## Definitions -/

/-- So many digits stand in a text beside one another, but for underscores between them. -/
def HasDigits (text : List Char) (n : Nat) : Prop :=
  ∃ run, run <:+: text ∧ (∀ c ∈ run, c.isDigit = true ∨ c = '_') ∧ run.countP Char.isDigit = n

/-- What is left behind a value is the end of a text. -/
def Leaves {α : Type} (cs : List Char) (read : Option (α × List Char)) : Prop :=
  ∀ a rest, read = some (a, rest) → rest <:+ cs

/-- What is left when something was skipped is the end of a text. -/
def Skips (cs : List Char) (left : Option (List Char)) : Prop :=
  ∀ rest, left = some rest → rest <:+ cs

/-- What comes of reading a text: a value and the end of the text, or the failure is one of too
many digits that stand in the text, or the text is malformed. -/
structure Reads {α : Type} (cs : List Char) (result : Except Failure (α × List Char)) : Prop where
  leaves : ∀ a rest, result = .ok (a, rest) → rest <:+ cs
  digits : ∀ n, result = .error (.tooManyDigits n) → Text.digitLimit < n ∧ HasDigits cs n

/-! ## Readers in a row -/

section

variable {α β : Type} {cs rest : List Char} {o : Option (α × List Char)}

namespace Leaves

theorem none : Leaves cs (none : Option (α × List Char)) := nofun

theorem some (a : α) (h : rest <:+ cs) : Leaves cs (some (a, rest)) := by
  intro _ _ heq
  cases heq
  exact h

theorem mono (h : Leaves rest o) (hsub : rest <:+ cs) : Leaves cs o :=
  fun a left heq => (h a left heq).trans hsub

theorem map (h : Leaves cs o) (f : α → β) : Leaves cs (o.map fun r => (f r.1, r.2)) := by
  cases o with
  | none => exact none
  | some r => exact some (f r.1) (h r.1 r.2 rfl)

theorem bind {f : α × List Char → Option (β × List Char)} (h : Leaves cs o)
    (hf : ∀ a rest, Leaves rest (f (a, rest))) : Leaves cs (o >>= f) := by
  cases o with
  | none => exact none
  | some r => exact (hf r.1 r.2).mono (h r.1 r.2 rfl)

end Leaves

theorem Skips.bind {left : Option (List Char)} {f : List Char → Option (α × List Char)}
    (h : Skips cs left) (hf : ∀ rest, Leaves rest (f rest)) : Leaves cs (left >>= f) := by
  cases left with
  | none => exact .none
  | some rest => exact (hf rest).mono (h rest rfl)

variable {x : Except Failure (α × List Char)} {n : Nat}

theorem HasDigits.mono {text : List Char} (h : HasDigits text n) (hsub : text <:+: cs) :
    HasDigits cs n := by
  obtain ⟨run, hrun, hspec⟩ := h
  exact ⟨run, hrun.trans hsub, hspec⟩

namespace Reads

theorem ok (a : α) (h : rest <:+ cs) : Reads cs (.ok (a, rest)) where
  leaves _ _ heq := by
    cases heq
    exact h
  digits _ heq := by cases heq

theorem malformed : Reads cs (.error .malformed : Except Failure (α × List Char)) where
  leaves _ _ heq := by cases heq
  digits _ heq := by cases heq

theorem error {e : Failure} (h : Reads cs (.error e : Except Failure (α × List Char))) :
    Reads cs (.error e : Except Failure (β × List Char)) where
  leaves _ _ heq := by cases heq
  digits n heq := by
    cases heq
    exact h.digits n rfl

theorem mono (h : Reads rest x) (hsub : rest <:+ cs) : Reads cs x where
  leaves a left heq := (h.leaves a left heq).trans hsub
  digits n heq := (h.digits n heq).imp_right fun hdigits => hdigits.mono hsub.isInfix

/-- One reader after the other. -/
theorem bind {f : α × List Char → Except Failure (β × List Char)} (h : Reads cs x)
    (hf : ∀ a rest, Reads rest (f (a, rest))) : Reads cs (x >>= f) := by
  cases x with
  | error e => exact h.error
  | ok r => exact (hf r.1 r.2).mono (h.leaves r.1 r.2 rfl)

/-- The value that was read does not matter. -/
theorem map (h : Reads cs x) (f : α → β) : Reads cs (x.map fun r => (f r.1, r.2)) := by
  cases x with
  | error e => exact h.error
  | ok r => exact ok (f r.1) (h.leaves r.1 r.2 rfl)

/-- Something that does not read may be malformed, too. -/
theorem bind_orMalformed {γ : Type} (o : Option γ) {f : γ → Except Failure (α × List Char)}
    (hf : ∀ c, Reads cs (f c)) : Reads cs (orMalformed o >>= f) := by
  cases o with
  | none => exact malformed
  | some c => exact hf c

end Reads

theorem Leaves.reads (h : Leaves cs o) : Reads cs (orMalformed o) := by
  cases o with
  | none => exact Reads.malformed
  | some r => exact Reads.ok r.1 (h r.1 r.2 rfl)

theorem Skips.reads {left : Option (List Char)} {f : List Char → Except Failure (α × List Char)}
    (h : Skips cs left) (hf : ∀ rest, Reads rest (f rest)) : Reads cs (orMalformed left >>= f) := by
  cases left with
  | none => exact .malformed
  | some rest => exact (hf rest).mono (h rest rfl)

end

/-! ## Strings -/

theorem suffix_skipSpaces (cs : List Char) : skipSpaces cs <:+ cs := List.dropWhile_suffix _

theorem suffix_skipLineFeed (cs : List Char) : skipLineFeed cs <:+ cs := by
  unfold skipLineFeed
  split
  · exact List.suffix_cons _ _
  · exact List.suffix_refl _

theorem Leaves.cons? {cs : List Char} {o : Option (List Char × List Char)} (h : Leaves cs o)
    (c : Char) : Leaves cs (cons? c o) := h.map _

theorem leaves_literal? (cs : List Char) : Leaves cs (literal? cs) := by
  unfold literal?
  dsimp only
  split
  · next rest hdrop =>
    split
    · exact .none
    · have hrest : rest <:+ '\'' :: rest := List.suffix_cons _ _
      exact .some _ (hrest.trans (hdrop ▸ List.drop_suffix _ cs))
  · exact .none

theorem leaves_splitAtQuotes? (quote : Char) (cs : List Char) :
    Leaves cs (splitAtQuotes? quote cs) := by
  fun_induction splitAtQuotes? quote cs with
  | case1 => exact .none
  | case2 c cs => exact .some [] ((List.drop_suffix 2 cs).trans (List.suffix_cons c cs))
  | case3 c cs _ ih => exact (ih.cons? c).mono (List.suffix_cons c cs)

theorem suffix_extraQuotes (quote : Char) (body cs : List Char) :
    (extraQuotes quote body cs).2 <:+ cs := by
  unfold extraQuotes
  split
  · next a b rest =>
    split
    · split
      · exact ⟨[a, b], rfl⟩
      · exact List.suffix_cons a (b :: rest)
    · exact List.suffix_refl _
  · split
    · exact List.nil_suffix
    · exact List.suffix_refl _
  · exact List.suffix_refl _

theorem leaves_longLiteral? (cs : List Char) : Leaves cs (longLiteral? cs) := by
  refine Leaves.bind ((leaves_splitAtQuotes? '\'' _).mono (suffix_skipLineFeed cs)) ?_
  intro body rest
  dsimp only
  split
  · exact .none
  · exact .some _ (suffix_extraQuotes '\'' body rest)

theorem leaves_basic? (long : Bool) (place : Place) (cs : List Char) :
    Leaves cs (basic? long place cs) := by
  fun_induction basic? long place cs with
  | case1 | case4 | case10 | case12 | case16 | case17 | case18 => exact .none
  | case2 _ _ _ ih | case3 _ _ ih | case5 _ _ _ _ _ ih => exact ih.mono (List.suffix_cons _ _)
  | case6 => exact .some [] (List.suffix_cons _ _)
  | case7 => exact .some [] ⟨['"', '"', '"'], rfl⟩
  | case8 => exact (Leaves.cons? ‹_› _).mono (List.suffix_cons _ _)
  | case9 => exact (Leaves.cons? ‹_› _).mono ⟨['\\', 'u', _, _, _, _], rfl⟩
  | case11 => exact (Leaves.cons? ‹_› _).mono ⟨['\\', 'U', _, _, _, _, _, _, _, _], rfl⟩
  | case13 => exact Leaves.mono ‹_› ⟨['\\', _], rfl⟩
  | case14 => exact Leaves.mono ‹_› ⟨['\\', _], rfl⟩
  | case15 => exact (Leaves.cons? ‹_› _).mono ⟨['\\', _], rfl⟩
  | case19 => exact (Leaves.cons? ‹_› _).mono (List.suffix_cons _ _)

theorem leaves_string? (cs : List Char) : Leaves cs (string? cs) := by
  refine Leaves.map ?_ String.ofList
  split
  · next rest =>
    refine fun body left heq => ?_
    obtain ⟨r, hr, heq⟩ := Option.map_eq_some_iff.1 heq
    have hleft := suffix_extraQuotes '"' r.1 r.2
    rw [heq] at hleft
    have hread := leaves_basic? true .text (skipLineFeed rest) r.1 r.2 hr
    exact ((hleft.trans hread).trans (suffix_skipLineFeed rest)).trans ⟨['"', '"', '"'], rfl⟩
  · exact (leaves_basic? false .text _).mono (List.suffix_cons _ _)
  · exact (leaves_longLiteral? _).mono ⟨['\'', '\'', '\''], rfl⟩
  · exact (leaves_literal? _).mono (List.suffix_cons _ _)
  · exact .none

/-! ## Numbers -/

theorem suffix_splitSign (cs : List Char) : (Text.splitSign cs).2 <:+ cs := by
  unfold Text.splitSign
  split
  · exact List.suffix_cons _ _
  · exact List.suffix_cons _ _
  · exact List.suffix_refl _

/-- The front of a text holds so many digits, with underscores between them; the rest is left. -/
def DigitsBefore (isDigit : Char → Bool) (cs rest : List Char) (n : Nat) : Prop :=
  ∃ run, cs = run ++ rest ∧ (∀ c ∈ run, isDigit c = true ∨ c = '_') ∧ run.countP isDigit = n

section

variable {isDigit : Char → Bool} {cs rest ds : List Char} {n : Nat} {c : Char}

namespace DigitsBefore

theorem zero (cs : List Char) : DigitsBefore isDigit cs cs 0 := ⟨[], rfl, by simp, rfl⟩

theorem digit (hc : isDigit c = true) (h : DigitsBefore isDigit cs rest n) :
    DigitsBefore isDigit (c :: cs) rest (n + 1) := by
  obtain ⟨run, rfl, hrun, rfl⟩ := h
  exact ⟨c :: run, rfl, List.forall_mem_cons.2 ⟨.inl hc, hrun⟩, List.countP_cons_of_pos hc⟩

theorem underscore (hnone : isDigit '_' = false) (h : DigitsBefore isDigit cs rest n) :
    DigitsBefore isDigit ('_' :: cs) rest n := by
  obtain ⟨run, rfl, hrun, rfl⟩ := h
  exact ⟨'_' :: run, rfl, List.forall_mem_cons.2 ⟨.inr rfl, hrun⟩,
    List.countP_cons_of_neg (by simp [hnone])⟩

theorem suffix (h : DigitsBefore isDigit cs rest n) : rest <:+ cs := by
  obtain ⟨run, rfl, -⟩ := h
  exact List.suffix_append run rest

theorem hasDigits (h : DigitsBefore Char.isDigit cs rest n) : HasDigits cs n := by
  obtain ⟨run, rfl, hspec⟩ := h
  exact ⟨run, (List.prefix_append run rest).isInfix, hspec⟩

end DigitsBefore

theorem digitsBefore_moreDigits (hnone : isDigit '_' = false) (cs : List Char) :
    DigitsBefore isDigit cs (moreDigits isDigit cs).2 (moreDigits isDigit cs).1.length := by
  fun_induction moreDigits isDigit cs with
  | case1 c rest hc r ih => exact (ih.digit hc).underscore hnone
  | case2 | case4 | case5 => exact .zero _
  | case3 c rest _ hc r ih => exact ih.digit hc

theorem digitsBefore_of_digits? (hnone : isDigit '_' = false)
    (h : digits? isDigit cs = some (ds, rest)) : DigitsBefore isDigit cs rest ds.length := by
  unfold digits? at h
  split at h
  · next c more =>
    split at h
    · next hc =>
      cases h
      exact (digitsBefore_moreDigits hnone more).digit hc
    · cases h
  · cases h

theorem digitsBefore_of_wholePart? (h : wholePart? cs = some (ds, rest)) :
    DigitsBefore Char.isDigit cs rest ds.length := by
  unfold wholePart? at h
  split at h
  · cases h
    exact (DigitsBefore.zero rest).digit rfl
  · exact digitsBefore_of_digits? rfl h

theorem suffix_fractionPart (cs : List Char) : (fractionPart cs).2 <:+ cs := by
  unfold fractionPart
  split
  · next rest =>
    cases h : digits? Char.isDigit rest with
    | none => exact List.suffix_refl _
    | some r => exact (digitsBefore_of_digits? rfl h).suffix.trans (List.suffix_cons _ _)
  · exact List.suffix_refl _

theorem suffix_exponentPart (cs : List Char) : (exponentPart cs).2 <:+ cs := by
  unfold exponentPart
  split
  · next e rest =>
    split
    · dsimp only
      split
      · next ds after hds =>
        have hbody := (digitsBefore_of_digits? rfl hds).suffix
        exact (hbody.trans (suffix_splitSign rest)).trans (List.suffix_cons e rest)
      · exact List.suffix_refl _
    · exact List.suffix_refl _
  · exact List.suffix_refl _

/-- A number is not read because of its digits when it is an integer with too many of them. -/
theorem reads_decimal (cs : List Char) : Reads cs (decimal cs) := by
  unfold decimal
  dsimp only
  cases hwhole : wholePart? (Text.splitSign cs).2 with
  | none => exact .malformed
  | some r =>
    obtain ⟨whole, rest⟩ := r
    have hdigits := digitsBefore_of_wholePart? hwhole
    have hrest := hdigits.suffix.trans (suffix_splitSign cs)
    have hleft := ((suffix_exponentPart _).trans (suffix_fractionPart rest)).trans hrest
    show Reads cs (if _ then _ else _)
    split
    · split
      · next hlimit =>
        refine ⟨nofun, fun n heq => ?_⟩
        cases heq
        exact ⟨hlimit, hdigits.hasDigits.mono (suffix_splitSign cs).isInfix⟩
      · exact .ok _ hleft
    · exact .ok _ hleft

theorem leaves_based? (base : Nat) (hnone : isDigit '_' = false) (cs : List Char) :
    Leaves cs (based? base isDigit cs) := by
  have hdigits : Leaves cs (digits? isDigit cs) :=
    fun _ _ h => (digitsBefore_of_digits? hnone h).suffix
  exact hdigits.map fun ds => Value.int (Text.numberIn base ds)

theorem leaves_namedFloat? (cs : List Char) : Leaves cs (namedFloat? cs) := by
  unfold namedFloat?
  dsimp only
  have hbody := suffix_splitSign cs
  split
  · next hword => exact .some _ ((hword ▸ ⟨['i', 'n', 'f'], rfl⟩ : _ <:+ _).trans hbody)
  · next hword => exact .some _ ((hword ▸ ⟨['n', 'a', 'n'], rfl⟩ : _ <:+ _).trans hbody)
  · exact .none

theorem reads_number (cs : List Char) : Reads cs (number cs) := by
  unfold number
  dsimp only
  split
  · next r hr =>
    refine .ok r.1 ?_
    rcases Option.or_eq_some_iff.1 hr with hbased | ⟨-, hnamed⟩
    · split at hbased
      · exact (leaves_based? 16 (by decide) _ r.1 r.2 hbased).trans ⟨['0', 'x'], rfl⟩
      · exact (leaves_based? 8 (by decide) _ r.1 r.2 hbased).trans ⟨['0', 'o'], rfl⟩
      · exact (leaves_based? 2 (by decide) _ r.1 r.2 hbased).trans ⟨['0', 'b'], rfl⟩
      · cases hbased
    · exact leaves_namedFloat? cs r.1 r.2 hnamed
  · exact reads_decimal cs

end

/-! ## Dates and times -/

theorem leaves_fixedDigits? (n : Nat) (cs : List Char) : Leaves cs (fixedDigits? n cs) := by
  unfold fixedDigits?
  dsimp only
  split
  · exact .some _ (List.drop_suffix n cs)
  · exact .none

theorem skips_after? (c : Char) (cs : List Char) : Skips cs (after? c cs) := by
  intro left h
  unfold after? at h
  split at h
  · split at h
    · cases h
      exact List.suffix_cons _ _
    · cases h
  · cases h

theorem suffix_secondFraction (cs : List Char) : (secondFraction cs).2 <:+ cs := by
  unfold secondFraction
  split
  · next rest =>
    dsimp only
    split
    · exact List.suffix_refl _
    · exact (List.drop_suffix _ rest).trans (List.suffix_cons _ _)
  · exact List.suffix_refl _

theorem leaves_hourMinute? (cs : List Char) : Leaves cs (hourMinute? cs) := by
  refine (leaves_fixedDigits? 2 cs).bind fun hour cs => ?_
  refine (skips_after? ':' cs).bind fun cs => ?_
  refine (leaves_fixedDigits? 2 cs).bind fun minute cs => ?_
  dsimp only
  split
  · exact .some _ (List.suffix_refl cs)
  · exact .none

theorem leaves_time? (cs : List Char) : Leaves cs (time? cs) := by
  refine (leaves_hourMinute? cs).bind fun hourMinute cs => ?_
  refine (skips_after? ':' cs).bind fun cs => ?_
  refine (leaves_fixedDigits? 2 cs).bind fun second cs => ?_
  dsimp only
  split
  · exact .some _ (suffix_secondFraction cs)
  · exact .none

theorem leaves_date? (cs : List Char) : Leaves cs (date? cs) := by
  refine (leaves_fixedDigits? 4 cs).bind fun year cs => ?_
  refine (skips_after? '-' cs).bind fun cs => ?_
  refine (leaves_fixedDigits? 2 cs).bind fun month cs => ?_
  refine (skips_after? '-' cs).bind fun cs => ?_
  refine (leaves_fixedDigits? 2 cs).bind fun day cs => ?_
  dsimp only
  split
  · exact .some _ (List.suffix_refl cs)
  · exact .none

theorem suffix_offset (cs : List Char) : (offset cs).2 <:+ cs := by
  unfold offset
  split
  · exact List.suffix_refl _
  · next c rest =>
    split
    · exact List.suffix_cons c rest
    · split
      · split
        · next hour minute after h =>
          exact (leaves_hourMinute? rest _ after h).trans (List.suffix_cons c rest)
        · exact List.suffix_refl _
      · exact List.suffix_refl _

theorem leaves_timeAfterDate? (cs : List Char) : Leaves cs (timeAfterDate? cs) := by
  unfold timeAfterDate?
  split
  · next c rest =>
    split
    · exact (leaves_time? rest).mono (List.suffix_cons c rest)
    · exact .none
  · exact .none

theorem leaves_moment? (cs : List Char) : Leaves cs (moment? cs) := by
  unfold moment?
  split
  · next d rest hd =>
    have hrest := leaves_date? cs d rest hd
    dsimp only
    cases ht : timeAfterDate? rest with
    | none => exact .some _ hrest
    | some r =>
      have hleft := leaves_timeAfterDate? rest r.1 r.2 ht
      exact .some _ ((suffix_offset r.2).trans (hleft.trans hrest))
  · exact (leaves_time? cs).map fun t => some (Moment.time t)

/-! ## Integers that are too long -/

section

variable {ds : List Char}

theorem moreDigits_of_digits (hds : ∀ c ∈ ds, c.isDigit = true) :
    moreDigits Char.isDigit ds = (ds, []) := by
  induction ds with
  | nil => rfl
  | cons c ds ih =>
    obtain ⟨hc, hds⟩ := List.forall_mem_cons.1 hds
    have hne : c ≠ '_' := by
      rintro rfl
      cases hc
    rw [moreDigits]
    · rw [if_pos hc, ih hds]
    · exact fun _ _ heq => absurd heq hne

theorem wholePart?_of_digits (hds : ∀ c ∈ ds, c.isDigit = true) (hne : ds ≠ [])
    (hzero : ds.head? ≠ some '0') : wholePart? ds = some (ds, []) := by
  cases ds with
  | nil => exact absurd rfl hne
  | cons c ds =>
    obtain ⟨hc, hds⟩ := List.forall_mem_cons.1 hds
    rw [wholePart?]
    · rw [digits?, if_pos hc, moreDigits_of_digits hds]
    · rintro rest heq
      cases heq
      exact hzero rfl

theorem after?_of_digits {c : Char} (hds : ∀ c ∈ ds, c.isDigit = true) (hc : c.isDigit = false) :
    after? c ds = none := by
  cases ds with
  | nil => rfl
  | cons d ds =>
    have hne : d ≠ c := by
      rintro rfl
      cases hc.symm.trans (hds d List.mem_cons_self)
    exact if_neg hne

/-- After some of the digits comes nothing but digits. -/
theorem after?_of_fixedDigits? {n : Nat} {c : Char} {r : Nat × List Char}
    (hds : ∀ c ∈ ds, c.isDigit = true) (hc : c.isDigit = false) (h : fixedDigits? n ds = some r) :
    after? c r.2 = none := by
  unfold fixedDigits? at h
  dsimp only at h
  split at h
  · cases h
    exact after?_of_digits (fun d hd => hds d (List.mem_of_mem_drop hd)) hc
  · cases h

/-- Digits alone are no date and no time. -/
theorem moment?_of_digits (hds : ∀ c ∈ ds, c.isDigit = true) : moment? ds = none := by
  have hdate : date? ds = none := by
    cases hyear : fixedDigits? 4 ds with
    | none => rw [date?, hyear]; rfl
    | some r =>
      rw [date?, hyear]
      show (after? '-' r.2).bind _ = none
      rw [after?_of_fixedDigits? hds rfl hyear]
      rfl
  have hhour : hourMinute? ds = none := by
    cases hfirst : fixedDigits? 2 ds with
    | none => rw [hourMinute?, hfirst]; rfl
    | some r =>
      rw [hourMinute?, hfirst]
      show (after? ':' r.2).bind _ = none
      rw [after?_of_fixedDigits? hds rfl hfirst]
      rfl
  rw [moment?, hdate, time?, hhour]
  rfl

/-- An integer is not read when it has too many digits. -/
theorem number_of_digits (hds : ∀ c ∈ ds, c.isDigit = true) (hzero : ds.head? ≠ some '0')
    (hmany : Text.digitLimit < ds.length) : number ds = .error (.tooManyDigits ds.length) := by
  have hne : ds ≠ [] := List.ne_nil_of_length_pos (Nat.zero_lt_of_lt hmany)
  have hsign : Text.splitSign ds = (false, ds) := by
    unfold Text.splitSign
    split
    · cases hds _ List.mem_cons_self
    · cases hds _ List.mem_cons_self
    · rfl
  have hnamed : namedFloat? ds = none := by
    unfold namedFloat?
    rw [hsign]
    dsimp only
    split
    · cases hds _ List.mem_cons_self
    · cases hds _ List.mem_cons_self
    · rfl
  have hdecimal : decimal ds = .error (.tooManyDigits ds.length) := by
    unfold decimal
    rw [hsign]
    dsimp only
    rw [wholePart?_of_digits hds hne hzero]
    exact if_pos hmany
  unfold number
  dsimp only
  rw [hnamed, Option.or_none]
  split
  · next r hr =>
    split at hr
    · exact absurd rfl hzero
    · exact absurd rfl hzero
    · exact absurd rfl hzero
    · cases hr
  · exact hdecimal

end

end CallAlign.Toml
