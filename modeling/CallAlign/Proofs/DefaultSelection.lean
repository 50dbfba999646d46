import CallAlign.Proofs.PatternMatching
import CallAlign.Selection

/-!
# The files taken by default

The include patterns that hold by default take a file by its name, wherever it lies: by the ending
of the name, or by the whole name.  A pattern that begins with a star matches the paths with an
ending; the name at the end of a path is either the whole path or stands behind a slash, and there
is one pattern for each case.

    lastName_eq_iff   : the name at the end of a path
    selects_by_name   : the paths that the default patterns take
-/

namespace CallAlign

/-! ## Names -/

/-- The endings of Ruby files. -/
def rubyEndings : List String := [".rb", ".rake", ".gemspec", ".ru"]

/-- The Ruby files that have a name of their own. -/
def rubyNames : List String := ["Rakefile", "Gemfile"]

/-- The last of the names of a path, between which the slashes stand. -/
def lastName (path : List Char) : List Char := (path.splitOn '/').getLastD []

/-- A path has the ending of a Ruby file, or leads to one with a name of its own. -/
def NamesRuby (path : List Char) : Prop :=
  (∃ ending ∈ rubyEndings, ending.toList <:+ path) ∨
    ∃ name ∈ rubyNames, lastName path = name.toList

/-! ## The last name -/

theorem lastName_of_notMem {path : List Char} (h : '/' ∉ path) : lastName path = path := by
  rw [lastName, List.splitOn_eq_singleton h, List.getLastD_cons, List.getLastD_nil]

theorem lastName_append (front : List Char) {name : List Char} (h : '/' ∉ name) :
    lastName (front ++ '/' :: name) = name := by
  rw [lastName, List.splitOn_append_cons_self, List.splitOn_eq_singleton h, List.getLastD_concat]

/-- A path is its last name, or has it behind a slash. -/
theorem lastName_eq_iff {path name : List Char} (h : '/' ∉ name) :
    lastName path = name ↔ path = name ∨ '/' :: name <:+ path := by
  constructor
  · intro hlast
    by_cases hslash : '/' ∈ path
    · -- the first slash of the reversed path is the last one of the path
      obtain ⟨tail, front, hpath, htail⟩ := List.eq_append_cons_of_mem (List.mem_reverse.2 hslash)
      have hpath : path = front.reverse ++ '/' :: tail.reverse := by
        simpa using congrArg List.reverse hpath
      rw [hpath, lastName_append _ (by simpa using htail)] at hlast
      exact .inr ⟨front.reverse, by rw [hpath, hlast]⟩
    · exact .inl ((lastName_of_notMem hslash).symm.trans hlast)
  · rintro (rfl | ⟨front, rfl⟩)
    · exact lastName_of_notMem h
    · exact lastName_append front h

/-! ## Patterns -/

namespace Glob

/-- A character that stands for itself. -/
def IsLiteral (c : Char) : Prop := c ≠ '*' ∧ c ≠ '?' ∧ c ≠ '['

instance (c : Char) : Decidable (IsLiteral c) := inferInstanceAs (Decidable (_ ∧ _))

-- by the characters of the pattern: characters altogether are finitely many, but too many to try
instance (pattern : List Char) : Decidable (∀ c ∈ pattern, IsLiteral c) :=
  List.decidableBAll IsLiteral pattern

section Patterns

variable {pattern path : List Char}

/-- A pattern of literal characters matches itself only. -/
theorem matches_iff_eq (h : ∀ c ∈ pattern, IsLiteral c) :
    Matches pattern path ↔ path = pattern := by
  induction pattern generalizing path with
  | nil =>
    constructor
    · rintro ⟨⟩
      rfl
    · rintro rfl
      exact .nil
  | cons c pattern ih =>
    obtain ⟨⟨hstar, hquestion, hopening⟩, hrest⟩ := List.forall_mem_cons.1 h
    constructor
    · intro hmatch
      cases hmatch with
      | literal _ _ _ hpath => rw [(ih hrest).1 hpath]
      | star => exact absurd rfl hstar
      | question => exact absurd rfl hquestion
      | set => exact absurd rfl hopening
      | opening => exact absurd rfl hopening
    · rintro rfl
      exact .literal hstar hquestion hopening ((ih hrest).2 rfl)

/-- Behind a star, literal characters are an ending. -/
theorem matches_star_iff (h : ∀ c ∈ pattern, IsLiteral c) :
    Matches ('*' :: pattern) path ↔ pattern <:+ path := by
  constructor
  · intro hmatch
    cases hmatch with
    | star cs hpath => exact ⟨cs, by rw [(matches_iff_eq h).1 hpath]⟩
    | literal hstar => exact absurd rfl hstar
  · rintro ⟨cs, rfl⟩
    exact .star cs ((matches_iff_eq h).2 rfl)

end Patterns

end Glob

section Texts

variable {text : String} (path : String) (h : ∀ c ∈ text.toList, Glob.IsLiteral c)
include h

theorem globMatches_literal_iff : globMatches text path = true ↔ path.toList = text.toList := by
  rw [globMatches_iff, Glob.matches_iff_eq h]

theorem globMatches_star_iff :
    globMatches ("*" ++ text) path = true ↔ text.toList <:+ path.toList := by
  rw [globMatches_iff, String.toList_append]
  exact Glob.matches_star_iff h

/-- A name by itself and behind a slash: the two patterns match the paths that lead to it. -/
theorem globMatches_name_iff (hslash : '/' ∉ text.toList) :
    (globMatches text path = true ∨ globMatches ("*/" ++ text) path = true) ↔
      lastName path.toList = text.toList := by
  have hbehind : ∀ c ∈ ("/" ++ text).toList, Glob.IsLiteral c := by
    rw [String.toList_append]
    exact List.forall_mem_cons.2 ⟨by decide, h⟩
  have hstar : "*/" ++ text = "*" ++ ("/" ++ text) := by
    rw [← String.append_assoc]
    rfl
  rw [hstar, globMatches_literal_iff path h, globMatches_star_iff path hbehind,
    lastName_eq_iff hslash, String.toList_append]
  rfl

end Texts

/-! ## The default patterns -/

/-- The default patterns: one for each ending, and two for each name. -/
theorem defaultIncludes_eq :
    defaultIncludes =
      rubyEndings.map ("*" ++ ·) ++ rubyNames.flatMap fun name => [name, "*/" ++ name] := by
  decide

theorem exists_defaultIncludes_iff (path : String) :
    (∃ glob ∈ defaultIncludes, globMatches glob path = true) ↔ NamesRuby path.toList := by
  have hendings : ∀ ending ∈ rubyEndings, ∀ c ∈ ending.toList, Glob.IsLiteral c := by decide
  have hnames : ∀ name ∈ rubyNames, (∀ c ∈ name.toList, Glob.IsLiteral c) ∧ '/' ∉ name.toList := by
    decide
  rw [defaultIncludes_eq]
  constructor
  · rintro ⟨glob, hglob, hmatch⟩
    rcases List.mem_append.1 hglob with hglob | hglob
    · obtain ⟨ending, hending, rfl⟩ := List.mem_map.1 hglob
      exact .inl ⟨ending, hending, (globMatches_star_iff path (hendings _ hending)).1 hmatch⟩
    · obtain ⟨name, hname, hglob⟩ := List.mem_flatMap.1 hglob
      obtain ⟨hliteral, hslash⟩ := hnames name hname
      refine .inr ⟨name, hname, (globMatches_name_iff path hliteral hslash).1 ?_⟩
      rcases List.mem_pair.1 hglob with rfl | rfl
      · exact .inl hmatch
      · exact .inr hmatch
  · rintro (⟨ending, hending, hsuffix⟩ | ⟨name, hname, hlast⟩)
    · exact ⟨"*" ++ ending, List.mem_append_left _ (List.mem_map_of_mem hending),
        (globMatches_star_iff path (hendings _ hending)).2 hsuffix⟩
    · obtain ⟨hliteral, hslash⟩ := hnames name hname
      have hmem : ∀ glob ∈ [name, "*/" ++ name], glob ∈ rubyEndings.map ("*" ++ ·) ++
          rubyNames.flatMap fun name => [name, "*/" ++ name] := fun glob hglob =>
        List.mem_append_right _ (List.mem_flatMap.2 ⟨name, hname, hglob⟩)
      rcases (globMatches_name_iff path hliteral hslash).2 hlast with hmatch | hmatch
      · exact ⟨name, hmem _ (by simp), hmatch⟩
      · exact ⟨"*/" ++ name, hmem _ (by simp), hmatch⟩

/-! ## Top theorem -/

/-- By default a path is taken for the name at its end: when it has one of four endings, or leads to
a file called `Rakefile` or `Gemfile`.  With exclude patterns, none of them may match the path. -/
theorem selects_by_name (config : Config) (path : String) :
    (Config.selects { config with includes := defaultIncludes, excludes := [] } path = true ↔
        NamesRuby path.toList) ∧
      (Config.selects { config with includes := defaultIncludes } path = true ↔
        NamesRuby path.toList ∧
          ∀ glob ∈ config.excludes, ¬ Glob.Matches glob.toList path.toList) := by
  have hexcluded : (∀ glob ∈ config.excludes, globMatches glob path = false) ↔
      ∀ glob ∈ config.excludes, ¬ Glob.Matches glob.toList path.toList := by
    simp only [← globMatches_iff, Bool.not_eq_true]
  constructor
  · rw [selects_iff, exists_defaultIncludes_iff]
    simp
  · rw [selects_iff, exists_defaultIncludes_iff, hexcluded]

/-- Neither a longer name nor a directory is taken for one of the names. -/
example : Config.default.selects "MyRakefile" = false ∧
    Config.default.selects "Rakefile/x" = false := by
  cbv

end CallAlign
