import CallAlign.Proofs.ScalarReaders
import CallAlign.Toml.Document

/-!
# Documents with integers that are too long

When a document cannot be read because a decimal integer has too many digits, these digits stand in
the document (`HasDigits`); a document without so many digits in a row is read or is no TOML.  On
the other hand no key can be given such an integer.

    reads_value       : a value leaves the end of what it was given
    hasDigits_of_read : the digits that are too many stand in the document
    read_of_digits    : a key is not given an integer that has too many digits
-/

namespace CallAlign.Toml

/-! ## Keys and blanks -/

theorem leaves_keyPart? (cs : List Char) : Leaves cs (keyPart? cs) := by
  unfold keyPart?
  split
  · exact ((leaves_basic? false .text _).map String.ofList).mono (List.suffix_cons _ _)
  · exact ((leaves_literal? _).map String.ofList).mono (List.suffix_cons _ _)
  · dsimp only
    split
    · exact .none
    · exact .some _ (List.drop_suffix _ cs)

theorem leaves_key? (fuel : Nat) (cs : List Char) : Leaves cs (key? fuel cs) := by
  induction fuel generalizing cs with
  | zero => exact .none
  | succ fuel ih =>
    refine (leaves_keyPart? cs).bind fun part rest => ?_
    have hspaces := suffix_skipSpaces rest
    dsimp only
    split
    · next after hafter =>
      rw [hafter] at hspaces
      refine Leaves.mono ?_ (((suffix_skipSpaces after).trans (List.suffix_cons _ _)).trans hspaces)
      exact (ih (skipSpaces after)).bind fun more left => .some _ (List.suffix_refl left)
    · exact .some _ hspaces

theorem skips_skipComment? (cs : List Char) : Skips cs (skipComment? cs) := by
  intro left h
  unfold skipComment? at h
  split at h
  · next rest =>
    dsimp only at h
    split at h
    · cases h
    · cases h
      exact (List.drop_suffix _ rest).trans (List.suffix_cons _ _)
  · cases h
    exact List.suffix_refl _

theorem skips_skipArrayBlanks? (fuel : Nat) (cs : List Char) :
    Skips cs (skipArrayBlanks? fuel cs) := by
  induction fuel generalizing cs with
  | zero => exact nofun
  | succ fuel ih =>
    intro left h
    unfold skipArrayBlanks? at h
    have hblanks : cs.dropWhile (fun c => isSpace c || c == '\n') <:+ cs := List.dropWhile_suffix _
    split at h
    · next rest hrest =>
      obtain ⟨after, hafter, h⟩ := Option.bind_eq_some_iff.1 h
      rw [hrest] at hblanks
      exact ((ih after left h).trans (skips_skipComment? _ after hafter)).trans hblanks
    · next rest hrest =>
      cases h
      exact hblanks

/-! ## Values -/

theorem reads_scalarValue (cs : List Char) : Reads cs (scalarValue cs) := by
  unfold scalarValue
  split
  · exact (leaves_string? _).reads.map Value.str
  · exact (leaves_string? _).reads.map Value.str
  · exact .ok _ ⟨['t', 'r', 'u', 'e'], rfl⟩
  · exact .ok _ ⟨['f', 'a', 'l', 's', 'e'], rfl⟩
  · split
    · next m rest hm =>
      cases m with
      | none => exact .malformed
      | some m => exact .ok _ (leaves_moment? cs (some m) rest hm)
    · exact reads_number cs

/-- With the fuel that they have, the readers of values, of the entries of an array and of the
members of a table leave the end of what they were given. -/
theorem reads_value (fuel : Nat) :
    (∀ cs, Reads cs (value fuel cs)) ∧ (∀ done cs, Reads cs (items fuel done cs)) ∧
      ∀ closed done cs, Reads cs (members fuel closed done cs) := by
  induction fuel with
  | zero => exact ⟨fun _ => .malformed, fun _ _ => .malformed, fun _ _ _ => .malformed⟩
  | succ fuel ih =>
    obtain ⟨hvalue, hitems, hmembers⟩ := ih
    refine ⟨fun cs => ?_, fun done cs => ?_, fun closed done cs => ?_⟩
    · unfold value
      split
      · next rest =>
        refine Reads.mono ?_ (List.suffix_cons '[' rest)
        refine (skips_skipArrayBlanks? fuel rest).reads fun rest => ?_
        split
        · exact .ok _ (List.suffix_cons _ _)
        · exact (hitems [] _).map Value.list
      · next rest =>
        refine Reads.mono ?_ ((suffix_skipSpaces rest).trans (List.suffix_cons '{' rest))
        split
        · next hrest =>
          rw [hrest]
          exact .ok _ (List.suffix_cons _ _)
        · exact (hmembers [] [] _).map Value.table
      · exact reads_scalarValue cs
    · unfold items
      refine (hvalue cs).bind fun v rest => ?_
      refine (skips_skipArrayBlanks? fuel rest).reads fun rest => ?_
      split
      · exact .ok _ (List.suffix_cons _ _)
      · next rest =>
        refine Reads.mono ?_ (List.suffix_cons ',' rest)
        refine (skips_skipArrayBlanks? fuel rest).reads fun rest => ?_
        split
        · exact .ok _ (List.suffix_cons _ _)
        · exact hitems _ _
      · exact .malformed
    · unfold members
      refine (leaves_key? fuel cs).reads.bind fun key rest => ?_
      refine (skips_after? '=' rest).reads fun rest => ?_
      refine Reads.mono ?_ (suffix_skipSpaces rest)
      refine (hvalue (skipSpaces rest)).bind fun v rest => ?_
      dsimp only
      split
      · exact .malformed
      · refine .bind_orMalformed _ fun done => ?_
        have hspaces := suffix_skipSpaces rest
        split
        · next hrest =>
          rw [hrest] at hspaces
          exact .ok _ ((List.suffix_cons _ _).trans hspaces)
        · next left hrest =>
          rw [hrest] at hspaces
          refine Reads.mono (hmembers _ _ (skipSpaces left)) ?_
          exact ((suffix_skipSpaces left).trans (List.suffix_cons _ _)).trans hspaces
        · exact .malformed

/-! ## Documents -/

theorem leaves_header? (fuel : Nat) (d : Document) (cs : List Char) :
    Leaves cs (d.header? fuel cs) := by
  unfold Document.header?
  split
  · next rest =>
    refine Leaves.mono ?_ ((suffix_skipSpaces rest).trans (List.suffix_cons '[' rest))
    refine (leaves_key? fuel _).bind fun key rest => ?_
    intro d' left h
    obtain ⟨_, -, h⟩ := Option.bind_eq_some_iff.1 h
    refine (skips_after? ']' rest).bind (fun rest => ?_) d' left h
    refine (skips_after? ']' rest).bind fun rest => ?_
    exact .some _ (suffix_skipSpaces rest)
  · refine Leaves.mono ?_ (suffix_skipSpaces cs)
    refine (leaves_key? fuel _).bind fun key rest => ?_
    intro d' left h
    obtain ⟨_, -, h⟩ := Option.bind_eq_some_iff.1 h
    refine (skips_after? ']' rest).bind (fun rest => ?_) d' left h
    exact .some _ (suffix_skipSpaces rest)

theorem reads_statement (fuel : Nat) (d : Document) (cs : List Char) :
    Reads cs (d.statement fuel cs) := by
  unfold Document.statement
  split
  · exact .ok _ (List.suffix_refl _)
  · next rest => exact (leaves_header? fuel d rest).reads.mono (List.suffix_cons '[' rest)
  · refine (leaves_key? fuel cs).reads.bind fun key rest => ?_
    refine (skips_after? '=' rest).reads fun rest => ?_
    refine Reads.mono ?_ (suffix_skipSpaces rest)
    refine ((reads_value fuel).1 (skipSpaces rest)).bind fun v rest => ?_
    exact .bind_orMalformed _ fun d => .ok _ (suffix_skipSpaces rest)

theorem hasDigits_of_statements {fuel n : Nat} {d : Document} {cs : List Char}
    (h : d.statements fuel cs = .error (.tooManyDigits n)) :
    Text.digitLimit < n ∧ HasDigits cs n := by
  induction fuel generalizing d cs with
  | zero => cases h
  | succ fuel ih =>
    have hspaces := suffix_skipSpaces cs
    unfold Document.statements at h
    split at h
    · cases h
    · next rest hcs =>
      rw [hcs] at hspaces
      have hsub := ((List.suffix_cons '\n' rest).trans hspaces).isInfix
      exact (ih h).imp_right fun hdigits => hdigits.mono hsub
    · have hstatement := (reads_statement fuel d (skipSpaces cs)).mono hspaces
      cases hread : d.statement fuel (skipSpaces cs) with
      | error e =>
        rw [hread] at h
        cases h
        exact hstatement.digits n hread
      | ok r =>
        have hrest := hstatement.leaves r.1 r.2 hread
        rw [hread] at h
        change (orMalformed (skipComment? r.2) >>= _) = _ at h
        cases hcomment : skipComment? r.2 with
        | none =>
          rw [hcomment] at h
          cases h
        | some left =>
          have hleft := (skips_skipComment? r.2 left hcomment).trans hrest
          rw [hcomment] at h
          dsimp only [orMalformed, bind, Except.bind] at h
          split at h
          · cases h
          · next rest =>
            have hsub := ((List.suffix_cons '\n' rest).trans hleft).isInfix
            exact (ih h).imp_right fun hdigits => hdigits.mono hsub
          · cases h

theorem prefix_of_joinLineEnds {run : List Char} (hrun : '\n' ∉ run) (text : List Char)
    (h : run <+: joinLineEnds text) : run <+: text := by
  fun_induction joinLineEnds text generalizing run with
  | case1 rest ih =>
    cases run with
    | nil => exact List.nil_prefix
    | cons c run =>
      obtain ⟨rfl, -⟩ := List.cons_prefix_cons.1 h
      exact absurd List.mem_cons_self hrun
  | case2 c rest _ ih =>
    cases run with
    | nil => exact List.nil_prefix
    | cons c run =>
      obtain ⟨rfl, htail⟩ := List.cons_prefix_cons.1 h
      exact List.cons_prefix_cons.2 ⟨rfl, ih (List.not_mem_of_not_mem_cons hrun) htail⟩
  | case3 => exact h

/-- What lies on one line of the joined text lies in the text. -/
theorem infix_of_joinLineEnds {run : List Char} (hrun : '\n' ∉ run) (text : List Char)
    (h : run <:+: joinLineEnds text) : run <:+: text := by
  fun_induction joinLineEnds text with
  | case1 rest ih =>
    rcases List.infix_cons_iff.1 h with hprefix | h
    · have heq : joinLineEnds ('\r' :: '\n' :: rest) = '\n' :: joinLineEnds rest := rfl
      exact (prefix_of_joinLineEnds hrun _ (heq ▸ hprefix)).isInfix
    · exact (ih h).trans ⟨['\r', '\n'], [], by simp⟩
  | case2 c rest hne ih =>
    rcases List.infix_cons_iff.1 h with hprefix | h
    · have heq : joinLineEnds (c :: rest) = c :: joinLineEnds rest := by
        rw [joinLineEnds]
        exact hne
      exact (prefix_of_joinLineEnds hrun _ (heq ▸ hprefix)).isInfix
    · exact List.infix_cons (ih h)
  | case3 => exact h

/-- The digits that are too many stand in the document. -/
theorem hasDigits_of_read {text : List Char} {n : Nat}
    (h : read text = .error (.tooManyDigits n)) : Text.digitLimit < n ∧ HasDigits text n := by
  let cs := joinLineEnds text
  have hdigits : Text.digitLimit < n ∧ HasDigits cs n := by
    change (Document.empty.statements (2 * cs.length + 4) cs).map _ = _ at h
    cases hread : Document.empty.statements (2 * cs.length + 4) cs with
    | error e =>
      rw [hread] at h
      cases h
      exact hasDigits_of_statements hread
    | ok d =>
      rw [hread] at h
      cases h
  obtain ⟨hlimit, run, hsub, hrun, hcount⟩ := hdigits
  have hline : '\n' ∉ run := fun hmem => by
    rcases hrun _ hmem with hdigit | hunder
    · cases hdigit
    · cases hunder
  exact ⟨hlimit, run, infix_of_joinLineEnds hline text hsub, hrun, hcount⟩

/-! ## Integers that are too long -/

section

variable {ds : List Char}

theorem scalarValue_of_digits (hds : ∀ c ∈ ds, c.isDigit = true) (hzero : ds.head? ≠ some '0')
    (hmany : Text.digitLimit < ds.length) :
    scalarValue ds = .error (.tooManyDigits ds.length) := by
  unfold scalarValue
  split
  · cases hds _ List.mem_cons_self
  · cases hds _ List.mem_cons_self
  · cases hds _ List.mem_cons_self
  · cases hds _ List.mem_cons_self
  · rw [moment?_of_digits hds]
    exact number_of_digits hds hzero hmany

theorem value_of_digits (fuel : Nat) (hds : ∀ c ∈ ds, c.isDigit = true)
    (hzero : ds.head? ≠ some '0') (hmany : Text.digitLimit < ds.length) :
    value (fuel + 1) ds = .error (.tooManyDigits ds.length) := by
  unfold value
  split
  · cases hds _ List.mem_cons_self
  · cases hds _ List.mem_cons_self
  · exact scalarValue_of_digits hds hzero hmany

theorem joinLineEnds_of_notMem {text : List Char} (h : '\r' ∉ text) : joinLineEnds text = text := by
  fun_induction joinLineEnds text with
  | case1 => exact absurd List.mem_cons_self h
  | case2 c rest _ ih => rw [ih (List.not_mem_of_not_mem_cons h)]
  | case3 => rfl

theorem skipSpaces_of_head {c : Char} {cs : List Char} (hspace : c ≠ ' ') (htab : c ≠ '\t') :
    skipSpaces (c :: cs) = c :: cs :=
  List.dropWhile_cons_of_neg (by simp [isSpace, hspace, htab])

variable {c : Char} {key : List Char}

theorem keyPart?_of_bare (hbare : ∀ d ∈ c :: key, isBareKeyChar d = true) (rest : List Char) :
    keyPart? (c :: key ++ '=' :: rest) = some (String.ofList (c :: key), '=' :: rest) := by
  have htake : (c :: key ++ '=' :: rest).takeWhile isBareKeyChar = c :: key := by
    rw [List.takeWhile_append_of_pos hbare, List.takeWhile_cons_of_neg (by decide), List.append_nil]
  have hc := hbare c List.mem_cons_self
  unfold keyPart?
  split
  · next heq =>
    cases heq
    cases hc
  · next heq =>
    cases heq
    cases hc
  · rw [htake]
    simp

/-- A statement that gives a bare key a value reads the value. -/
theorem statement_of_bare {n : Nat} (fuel : Nat) (d : Document)
    (hbare : ∀ d ∈ c :: key, isBareKeyChar d = true)
    (hvalue : value (fuel + 1) ds = .error (.tooManyDigits n)) (hds : skipSpaces ds = ds) :
    d.statement (fuel + 1) (c :: key ++ '=' :: ds) = .error (.tooManyDigits n) := by
  have hc := hbare c List.mem_cons_self
  have hkey : key? (fuel + 1) (c :: key ++ '=' :: ds) =
      some ([String.ofList (c :: key)], '=' :: ds) := by
    rw [key?, keyPart?_of_bare hbare]
    rfl
  unfold Document.statement
  split
  · next heq =>
    cases heq
    cases hc
  · next heq =>
    cases heq
    cases hc
  · rw [hkey]
    show (value (fuel + 1) (skipSpaces ds) >>= _) = _
    rw [hds, hvalue]
    rfl

/-- A key is not given an integer that has too many digits. -/
theorem read_of_digits (hne : key ≠ []) (hbare : ∀ c ∈ key, isBareKeyChar c = true)
    (hds : ∀ c ∈ ds, c.isDigit = true) (hzero : ds.head? ≠ some '0')
    (hmany : Text.digitLimit < ds.length) :
    read (key ++ '=' :: ds) = .error (.tooManyDigits ds.length) := by
  have hline : '\r' ∉ key ++ '=' :: ds := by
    intro hmem
    rcases List.mem_append.1 hmem with hmem | hmem
    · cases hbare _ hmem
    · rcases List.mem_cons.1 hmem with heq | hmem
      · cases heq
      · cases hds _ hmem
  obtain ⟨c, key, rfl⟩ := List.exists_cons_of_ne_nil hne
  have hc := hbare c List.mem_cons_self
  have hspace : c ≠ ' ' := by
    rintro rfl
    cases hc
  have htab : c ≠ '\t' := by
    rintro rfl
    cases hc
  have hdigits : skipSpaces ds = ds := by
    cases ds with
    | nil => rfl
    | cons d ds =>
      have hd := hds d List.mem_cons_self
      apply skipSpaces_of_head
      · rintro rfl
        cases hd
      · rintro rfl
        cases hd
  have hvalue (fuel : Nat) := value_of_digits fuel hds hzero hmany
  unfold read
  dsimp only
  rw [joinLineEnds_of_notMem hline, Document.statements, List.cons_append,
    skipSpaces_of_head hspace htab]
  split
  · next heq => cases heq
  · next heq =>
    cases heq
    cases hc
  · rw [← List.cons_append, statement_of_bare _ _ hbare (hvalue _) hdigits]
    rfl

end

end CallAlign.Toml
