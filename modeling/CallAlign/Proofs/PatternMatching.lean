import CallAlign.Glob
import Mathlib.Data.List.Forall2
import Mathlib.Data.List.Infix

/-!
# What patterns match

An expression leads from one place of a text to another; a place is what is left of the text there
(`Regex.Leads`).  The matcher works on rows, which hold a truth value for each place, and the row it
makes tells from which places the expression leads to a place of the row it was given.  A glob
pattern is read character by character (`Glob.Matches`), and the expression made from it leads
through a whole path when the pattern matches it.

    tells_back       : what the row of an expression tells
    matchesAll_iff   : the matcher finds the expressions that lead through the whole text
    globMatches_iff  : a path matches a glob as a whole
-/

namespace CallAlign

namespace Regex

/-! ## Places -/

/-- The expression leads from the place where `rest` is left of a text to the one where `rest'`
is. -/
def Leads (text : List Char) : Regex → List Char → List Char → Prop
  | empty, rest, rest' => rest = rest'
  | one set, rest, rest' => ∃ c, set.contains c = true ∧ rest = c :: rest'
  | many set, rest, rest' => ∃ cs, (∀ c ∈ cs, set.contains c = true) ∧ rest = cs ++ rest'
  | start, rest, rest' => rest = text ∧ rest = rest'
  | finish, rest, rest' => (rest = [] ∨ rest = ['\n']) ∧ rest = rest'
  | seq a b, rest, rest' => ∃ between, Leads text a rest between ∧ Leads text b between rest'
  | alt a b, rest, rest' => Leads text a rest rest' ∨ Leads text b rest rest'

/-- The expression leads from a place to one with a property. -/
def Reaches (text : List Char) (r : Regex) (p : List Char → Prop) (rest : List Char) : Prop :=
  ∃ rest', Leads text r rest rest' ∧ p rest'

/-- The row has a truth value for every place of the text, which tells whether a property holds
there. -/
def Tells (row : List Bool) (text : List Char) (p : List Char → Prop) : Prop :=
  List.Forall₂ (fun b rest => b = true ↔ p rest) row text.tails

/-! ## Rows -/

section Rows

variable {row : List Bool} {b : Bool} {c : Char} {text whole : List Char} {p q : List Char → Prop}

theorem tells_nil : Tells (b :: row) [] p ↔ (b = true ↔ p []) ∧ row = [] := by
  rw [Tells, List.tails, List.forall₂_cons, List.forall₂_nil_right_iff]

theorem tells_cons :
    Tells (b :: row) (c :: text) p ↔ (b = true ↔ p (c :: text)) ∧ Tells row text p := by
  rw [Tells, List.tails, List.forall₂_cons, Tells]

theorem Tells.exists_cons (h : Tells row text p) : ∃ b next, row = b :: next := by
  cases row with
  | nil => cases text <;> cases h
  | cons b next => exact ⟨b, next, rfl⟩

/-- The first truth value is that of the whole text. -/
theorem Tells.head (h : Tells row text p) : row.headD false = true ↔ p text := by
  obtain ⟨b, next, rfl⟩ := h.exists_cons
  cases text with
  | nil => exact (tells_nil.1 h).1
  | cons c text => exact (tells_cons.1 h).1

theorem Tells.congr (h : Tells row text p) (hpq : ∀ rest, p rest ↔ q rest) : Tells row text q :=
  h.imp fun _ rest hb => hb.trans (hpq rest)

/-- A row without truth tells what holds nowhere. -/
theorem Tells.map_false (h : Tells row text p) (hq : ∀ rest, rest <:+ text → ¬ q rest) :
    Tells (row.map fun _ => false) text q := by
  induction text generalizing row with
  | nil =>
    obtain ⟨b, next, rfl⟩ := h.exists_cons
    have hnil := hq [] List.suffix_rfl
    exact tells_nil.2 ⟨by simpa using hnil, by simp [(tells_nil.1 h).2]⟩
  | cons c text ih =>
    obtain ⟨b, next, rfl⟩ := h.exists_cons
    have hcons := hq (c :: text) List.suffix_rfl
    exact tells_cons.2 ⟨by simpa using hcons,
      ih (tells_cons.1 h).2 fun rest hrest => hq rest (hrest.trans (List.suffix_cons c text))⟩

theorem Tells.or {row' : List Bool} (h : Tells row text p) (h' : Tells row' text q) :
    Tells (List.zipWith (· || ·) row row') text fun rest => p rest ∨ q rest := by
  induction text generalizing row row' with
  | nil =>
    obtain ⟨b, next, rfl⟩ := h.exists_cons
    obtain ⟨b', next', rfl⟩ := h'.exists_cons
    obtain ⟨hb, rfl⟩ := tells_nil.1 h
    exact tells_nil.2 ⟨by simp [hb, (tells_nil.1 h').1], rfl⟩
  | cons c text ih =>
    obtain ⟨b, next, rfl⟩ := h.exists_cons
    obtain ⟨b', next', rfl⟩ := h'.exists_cons
    obtain ⟨hb, hnext⟩ := tells_cons.1 h
    obtain ⟨hb', hnext'⟩ := tells_cons.1 h'
    exact tells_cons.2 ⟨by simp [hb, hb'], ih hnext hnext'⟩

/-! ## Rows of expressions -/

theorem tells_oneRow (set : CharSet) (h : Tells row text p) :
    Tells (oneRow set text row) text (Reaches whole (one set) p) := by
  induction text generalizing row with
  | nil =>
    refine h.map_false fun rest hrest => ?_
    rintro ⟨rest', ⟨c, -, rfl⟩, -⟩
    simp at hrest
  | cons c text ih =>
    obtain ⟨b, next, rfl⟩ := h.exists_cons
    have hnext := (tells_cons.1 h).2
    refine tells_cons.2 ⟨?_, ih hnext⟩
    rw [Bool.and_eq_true, hnext.head]
    constructor
    · rintro ⟨hset, hp⟩
      exact ⟨text, ⟨c, hset, rfl⟩, hp⟩
    · rintro ⟨rest', ⟨d, hset, heq⟩, hp⟩
      cases heq
      exact ⟨hset, hp⟩

theorem tells_manyRow (set : CharSet) (h : Tells row text p) :
    Tells (manyRow set text row) text (Reaches whole (many set) p) := by
  induction text generalizing row with
  | nil =>
    obtain ⟨b, next, rfl⟩ := h.exists_cons
    obtain ⟨hb, hnext⟩ := tells_nil.1 h
    refine tells_nil.2 ⟨hb.trans ⟨fun hp => ⟨[], ⟨[], by simp, rfl⟩, hp⟩, ?_⟩, hnext⟩
    rintro ⟨rest', ⟨cs, -, heq⟩, hp⟩
    rwa [(List.append_eq_nil_iff.1 heq.symm).2] at hp
  | cons c text ih =>
    obtain ⟨b, next, rfl⟩ := h.exists_cons
    obtain ⟨hb, hnext⟩ := tells_cons.1 h
    refine tells_cons.2 ⟨?_, ih hnext⟩
    rw [Bool.or_eq_true, Bool.and_eq_true, hb, (ih hnext).head]
    constructor
    · rintro (hp | ⟨hset, rest', ⟨cs, hcs, rfl⟩, hp⟩)
      · exact ⟨c :: text, ⟨[], by simp, rfl⟩, hp⟩
      · exact ⟨rest', ⟨c :: cs, List.forall_mem_cons.2 ⟨hset, hcs⟩, rfl⟩, hp⟩
    · rintro ⟨rest', ⟨cs, hcs, heq⟩, hp⟩
      cases cs with
      | nil => exact .inl (by rwa [heq])
      | cons d cs =>
        cases heq
        obtain ⟨hset, hcs⟩ := List.forall_mem_cons.1 hcs
        exact .inr ⟨hset, rest', ⟨cs, hcs, rfl⟩, hp⟩

theorem reaches_start_iff {rest : List Char} :
    Reaches whole start p rest ↔ rest = whole ∧ p rest := by
  simp [Reaches, Leads, and_assoc]

theorem reaches_finish_iff {rest : List Char} :
    Reaches whole finish p rest ↔ (rest = [] ∨ rest = ['\n']) ∧ p rest := by
  simp [Reaches, Leads, and_assoc]

theorem tells_startRow (h : Tells row text p) :
    Tells (startRow row) text (Reaches text start p) := by
  obtain ⟨b, next, rfl⟩ := h.exists_cons
  cases text with
  | nil =>
    obtain ⟨hb, rfl⟩ := tells_nil.1 h
    exact tells_nil.2 ⟨by simp [reaches_start_iff, hb], rfl⟩
  | cons c text =>
    obtain ⟨hb, hnext⟩ := tells_cons.1 h
    refine tells_cons.2 ⟨by simp [reaches_start_iff, hb], hnext.map_false fun rest hrest => ?_⟩
    -- what is left further on is shorter than the text
    rw [reaches_start_iff]
    rintro ⟨rfl, -⟩
    exact absurd hrest.length_le (by simp)

theorem tells_finishRow (h : Tells row text p) :
    Tells (finishRow text row) text (Reaches whole finish p) := by
  induction text generalizing row with
  | nil =>
    obtain ⟨b, next, rfl⟩ := h.exists_cons
    obtain ⟨hb, rfl⟩ := tells_nil.1 h
    exact tells_nil.2 ⟨by simp [reaches_finish_iff, hb], rfl⟩
  | cons c text ih =>
    obtain ⟨b, next, rfl⟩ := h.exists_cons
    obtain ⟨hb, hnext⟩ := tells_cons.1 h
    by_cases hend : c :: text = ['\n']
    · cases hend
      obtain ⟨b', _, rfl⟩ := hnext.exists_cons
      obtain ⟨hb', rfl⟩ := tells_nil.1 hnext
      exact tells_cons.2 ⟨by simp [reaches_finish_iff, hb],
        tells_nil.2 ⟨by simp [reaches_finish_iff, hb'], rfl⟩⟩
    · rw [finishRow]
      · exact tells_cons.2 ⟨by simp [reaches_finish_iff, hend], ih hnext⟩
      · rintro rfl rfl
        exact hend rfl

/-- The row of an expression tells from which places it leads to a place that the given row tells
of. -/
theorem tells_back (r : Regex) (h : Tells row text p) :
    Tells (r.back text row) text (Reaches text r p) := by
  induction r generalizing row p with
  | empty => exact h.congr fun rest => by simp [Reaches, Leads]
  | one set => exact tells_oneRow set h
  | many set => exact tells_manyRow set h
  | start => exact tells_startRow h
  | finish => exact tells_finishRow h
  | seq a b iha ihb =>
    refine (iha (ihb h)).congr fun rest => ?_
    constructor
    · rintro ⟨between, ha, rest', hb, hp⟩
      exact ⟨rest', ⟨between, ha, hb⟩, hp⟩
    · rintro ⟨rest', ⟨between, ha, hb⟩, hp⟩
      exact ⟨between, ha, rest', hb, hp⟩
  | alt a b iha ihb =>
    refine ((iha h).or (ihb h)).congr fun rest => ?_
    simp only [Reaches, Leads, or_and_right, exists_or]

theorem tells_endRow (text : List Char) : Tells (endRow text) text (· = []) := by
  induction text with
  | nil => exact tells_nil.2 ⟨by simp, rfl⟩
  | cons c text ih => exact tells_cons.2 ⟨by simp, ih⟩

end Rows

/-- The matcher finds the expressions that lead through the whole text. -/
theorem matchesAll_iff (r : Regex) (text : List Char) :
    r.matchesAll text = true ↔ Leads text r text [] := by
  rw [matchesAll, (tells_back r (tells_endRow text)).head]
  simp [Reaches]

end Regex

/-! ## Globs -/

namespace CharSet

theorem contains_all (c : Char) : all.contains c = true := rfl

theorem contains_single_iff (a c : Char) : (single a).contains c = true ↔ c = a := by
  simp only [contains, single, List.any_cons, List.any_nil, Bool.or_false, bne_iff_ne, ne_eq,
    Bool.not_eq_false, Bool.and_eq_true, decide_eq_true_eq]
  rw [← Char.toNat_inj]
  omega

end CharSet

namespace Glob

/-- A pattern matches a path as a whole. -/
inductive Matches : List Char → List Char → Prop where
  | nil : Matches [] []
  | star {pattern path : List Char} (cs : List Char) :
    Matches pattern path → Matches ('*' :: pattern) (cs ++ path)
  | question {pattern path : List Char} (c : Char) :
    Matches pattern path → Matches ('?' :: pattern) (c :: path)
  | set {rest body after path : List Char} {c : Char} :
    bracket? rest = some (body, after) → (setOf body).contains c = true →
    Matches after path → Matches ('[' :: rest) (c :: path)
  | opening {rest path : List Char} :
    bracket? rest = none → Matches rest path → Matches ('[' :: rest) ('[' :: path)
  | literal {c : Char} {pattern path : List Char} :
    c ≠ '*' → c ≠ '?' → c ≠ '[' → Matches pattern path → Matches (c :: pattern) (c :: path)

/-- The expression of a pattern leads through the paths that the pattern matches. -/
theorem leads_regex_iff (text pattern path : List Char) :
    (regex pattern).Leads text path [] ↔ Matches pattern path := by
  fun_induction regex pattern generalizing path with
  | case1 =>
    constructor
    · rintro rfl
      exact .nil
    · rintro ⟨⟩
      rfl
  | case2 rest ih =>
    constructor
    · rintro ⟨between, ⟨cs, -, rfl⟩, hrest⟩
      exact .star cs ((ih between).1 hrest)
    · intro h
      cases h with
      | star cs hrest => exact ⟨_, ⟨cs, fun c _ => CharSet.contains_all c, rfl⟩, (ih _).2 hrest⟩
      | literal hstar => exact absurd rfl hstar
  | case3 rest ih =>
    constructor
    · rintro ⟨between, ⟨c, -, rfl⟩, hrest⟩
      exact .question c ((ih between).1 hrest)
    · intro h
      cases h with
      | question c hrest => exact ⟨_, ⟨c, CharSet.contains_all c, rfl⟩, (ih _).2 hrest⟩
      | literal _ hquestion => exact absurd rfl hquestion
  | case4 rest body after hbracket hlength ih =>
    constructor
    · rintro ⟨between, ⟨c, hset, rfl⟩, hrest⟩
      exact .set hbracket hset ((ih between).1 hrest)
    · intro h
      cases h with
      | set hbracket' hset hrest =>
        cases hbracket.symm.trans hbracket'
        exact ⟨_, ⟨_, hset, rfl⟩, (ih _).2 hrest⟩
      | opening hnone => cases hbracket.symm.trans hnone
      | literal _ _ hopening => exact absurd rfl hopening
  | case5 rest hnone ih =>
    constructor
    · rintro ⟨between, ⟨c, hset, rfl⟩, hrest⟩
      rw [(CharSet.contains_single_iff _ c).1 hset]
      exact .opening hnone ((ih between).1 hrest)
    · intro h
      cases h with
      | set hbracket => cases hbracket.symm.trans hnone
      | opening _ hrest =>
        exact ⟨_, ⟨_, (CharSet.contains_single_iff _ _).2 rfl, rfl⟩, (ih _).2 hrest⟩
      | literal _ _ hopening => exact absurd rfl hopening
  | case6 c rest hstar hquestion hopening ih =>
    constructor
    · rintro ⟨between, ⟨d, hset, rfl⟩, hrest⟩
      rw [(CharSet.contains_single_iff c d).1 hset]
      exact .literal hstar hquestion hopening ((ih between).1 hrest)
    · intro h
      cases h with
      | literal _ _ _ hrest =>
        exact ⟨_, ⟨c, (CharSet.contains_single_iff c c).2 rfl, rfl⟩, (ih _).2 hrest⟩
      | star => exact absurd rfl hstar
      | question => exact absurd rfl hquestion
      | set => exact absurd rfl hopening
      | opening => exact absurd rfl hopening

end Glob

/-- A path matches a glob as a whole. -/
theorem globMatches_iff (pattern path : String) :
    globMatches pattern path = true ↔ Glob.Matches pattern.toList path.toList := by
  rw [globMatches, Regex.matchesAll_iff, Glob.leads_regex_iff]

end CallAlign
