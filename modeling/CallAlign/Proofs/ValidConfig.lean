import CallAlign.Config
import CallAlign.Proofs.FileTree
import Mathlib.Tactic.Tauto

/-!
# Valid configurations

A table is read field by field: each field by the value of its key, or by its default when the key
is missing, and no other key is allowed (`Config.IsReadFrom`).  The order of the keys does not
matter.  Whatever was written for a field, what is read is in one form, and the configuration
written out with all its keys is read as itself.

    ofEntries_eq_ok_iff        : what is read from a table, field by field
    IsReadFrom.valid           : what is read is valid
    IsReadFrom.perm            : the order of the keys does not matter
    Config.ofValue_toValue     : a valid configuration is read from the table that it writes
    ofValue_valid_and_fixed    : all of this for what is read from a value
-/

namespace CallAlign

/-! ## Definitions -/

/-- The code points of the blanks: tab to carriage return, the information separators, the space,
U+0085 and U+00A0, and the spaces and separators further up. -/
def blankCodes : List Nat :=
  [9, 10, 11, 12, 13, 28, 29, 30, 31, 32, 0x85, 0xA0, 0x1680, 0x2000, 0x2001, 0x2002, 0x2003,
    0x2004, 0x2005, 0x2006, 0x2007, 0x2008, 0x2009, 0x200A, 0x2028, 0x2029, 0x202F, 0x205F, 0x3000]

/-- A pattern has a character that is not blank. -/
def IsPattern (text : String) : Prop := ∃ c ∈ text.toList, c.toNat ∉ blankCodes

-- by the characters of the text: characters altogether are finitely many, but too many to try
instance (text : String) : Decidable (IsPattern text) :=
  List.decidableBEx (fun c : Char => c.toNat ∉ blankCodes) text.toList

/-- What every configuration that is read has. -/
structure Config.Valid (c : Config) : Prop where
  includes : ∀ p ∈ c.includes, IsPattern p
  excludes : ∀ p ∈ c.excludes, IsPattern p
  format : c.format.name = "text" ∨ c.format.name = "json"
  jobs : 1 ≤ c.jobs

/-- A value reads as a list of patterns: it is null, or the list of their texts. -/
def ReadsPatterns (v : Value) (ps : List String) : Prop :=
  v = .null ∧ ps = [] ∨ v = .list (ps.map .str) ∧ ∀ p ∈ ps, IsPattern p

/-- A field of a table: what the value of its key reads as, or the default for a missing key. -/
def FieldIs {α : Type} (entries : List (String × Value)) (key : String) (absent : α)
    (reads : Value → α → Prop) (a : α) : Prop :=
  entries.lookup key = none ∧ a = absent ∨ ∃ v, entries.lookup key = some v ∧ reads v a

/-- The configuration that a table holds. -/
structure Config.IsReadFrom (c : Config) (entries : List (String × Value)) : Prop where
  known : ∀ entry ∈ entries, entry.1 ∈ keys
  enabled : FieldIs entries "enabled" default.enabled (fun v b => v.toBool = .ok b) c.enabled
  includes : FieldIs entries "include" default.includes ReadsPatterns c.includes
  excludes : FieldIs entries "exclude" default.excludes ReadsPatterns c.excludes
  nested : FieldIs entries "nested_gitignore" default.nestedGitignore
    (fun v b => v.toBool = .ok b) c.nestedGitignore
  format : FieldIs entries "format" default.format
    (fun v f => v.toChoice ReportFormat.all ReportFormat.name = .ok f) c.format
  jobs : FieldIs entries "jobs" default.jobs (fun v n => v.toIntFrom 1 = .ok n) c.jobs

/-! ## Fields -/

section Fields

variable {entries : List (String × Value)} {key : String}

theorem readField_eq_ok_iff {α : Type} {read : Value → Except Fault α} {absent a : α} :
    readField entries key read (.ok absent) = .ok a ↔
      FieldIs entries key absent (fun v a => read v = .ok a) a := by
  unfold readField FieldIs
  cases entries.lookup key with
  | none => simp [eq_comm]
  | some v => cases hread : read v <;> simp [hread]

/-- Which characters are blank. -/
theorem isBlank_iff (c : Char) : Text.isBlank c = true ↔ c.toNat ∈ blankCodes := by
  simp only [Text.isBlank, Text.isWhiteSpace, blankCodes, Bool.or_eq_true, Bool.and_eq_true,
    decide_eq_true_eq, beq_iff_eq, List.mem_cons, List.not_mem_nil, or_false]
  omega

theorem isPattern_iff (text : String) : IsPattern text ↔ Text.allBlank text.toList = false := by
  simp [IsPattern, Text.allBlank, ← isBlank_iff]

theorem readPattern_eq_ok_iff {v : Value} {p : String} :
    Config.readPattern v = .ok p ↔ v = .str p ∧ IsPattern p := by
  cases v with
  | str text =>
    rw [Config.readPattern, isPattern_iff]
    by_cases hblank : Text.allBlank text.toList = true
    · rw [if_pos hblank]
      simp only [reduceCtorEq, Value.str.injEq, false_iff]
      rintro ⟨rfl, hp⟩
      simp [hblank] at hp
    · rw [if_neg hblank]
      simp only [Except.ok.injEq, Value.str.injEq]
      exact ⟨fun h => ⟨h, h ▸ by simpa using hblank⟩, And.left⟩
  | _ => simp [Config.readPattern]

/-- What is read as a list of patterns is the list of their texts. -/
theorem readPatterns_eq_ok_iff {items : List Value} {ps : List String} :
    Config.readPatterns items = .ok ps ↔ items = ps.map .str ∧ ∀ p ∈ ps, IsPattern p := by
  induction items generalizing ps with
  | nil => cases ps <;> simp [Config.readPatterns]
  | cons v items ih =>
    rw [Config.readPatterns]
    cases ps with
    | nil => cases Config.readPattern v <;> cases Config.readPatterns items <;> simp
    | cons p ps =>
      have hsplit : v :: items = (p :: ps).map .str ∧ (∀ q ∈ p :: ps, IsPattern q) ↔
          Config.readPattern v = .ok p ∧ Config.readPatterns items = .ok ps := by
        rw [ih, readPattern_eq_ok_iff, List.map_cons, List.cons.injEq, List.forall_mem_cons]
        tauto
      rw [hsplit]
      cases Config.readPattern v <;> cases Config.readPatterns items <;> simp

theorem patternField?_eq_ok_iff {absent ps : List String} :
    Config.patternField? entries key absent = some (.ok ps) ↔
      FieldIs entries key absent ReadsPatterns ps := by
  unfold Config.patternField? FieldIs
  cases entries.lookup key with
  | none => simp [eq_comm]
  | some v =>
    simp only [reduceCtorEq, false_and, false_or, Option.some.injEq, exists_eq_left', ReadsPatterns]
    cases v with
    | null => simp [Config.patternItems?, Config.readPatterns, eq_comm]
    | list items =>
      simp only [reduceCtorEq, false_and, false_or, Value.list.injEq, ← readPatterns_eq_ok_iff]
      cases hread : Config.readPatterns items <;> simp [Config.patternItems?, hread]
    | _ => simp [Config.patternItems?]

theorem unknownKeys_eq_nil_iff :
    Config.unknownKeys entries = [] ↔ ∀ entry ∈ entries, entry.1 ∈ Config.keys := by
  simp [Config.unknownKeys]

/-- What is read from a table, field by field. -/
theorem ofEntries_eq_ok_iff {c : Config} :
    Config.ofEntries entries = .ok c ↔ c.IsReadFrom entries := by
  constructor
  · intro h
    unfold Config.ofEntries at h
    split at h
    · next includes excludes hincludes hexcludes =>
      dsimp only at h
      split at h
      · next henabled hnested hformat hjobs hunknown =>
        cases h
        exact
          { known := unknownKeys_eq_nil_iff.1 hunknown
            enabled := readField_eq_ok_iff.1 henabled
            includes := patternField?_eq_ok_iff.1 hincludes
            excludes := patternField?_eq_ok_iff.1 hexcludes
            nested := readField_eq_ok_iff.1 hnested
            format := readField_eq_ok_iff.1 hformat
            jobs := readField_eq_ok_iff.1 hjobs }
      · cases h
    · cases h
  · intro h
    unfold Config.ofEntries
    rw [patternField?_eq_ok_iff.2 h.includes, patternField?_eq_ok_iff.2 h.excludes]
    dsimp only
    rw [readField_eq_ok_iff.2 h.enabled, readField_eq_ok_iff.2 h.nested,
      readField_eq_ok_iff.2 h.format, readField_eq_ok_iff.2 h.jobs,
      unknownKeys_eq_nil_iff.2 h.known]

end Fields

/-! ## What is read is valid -/

/-- The order of distinct keys does not matter. -/
theorem lookup_eq_of_perm {α β : Type} [BEq α] [LawfulBEq α] {entries entries' : List (α × β)}
    (hperm : entries.Perm entries') (hnd : (entries.map (·.1)).Nodup) (key : α) :
    entries.lookup key = entries'.lookup key := by
  have hnd' := (hperm.map (·.1)).nodup_iff.1 hnd
  ext v
  rw [lookup_eq_some_iff_mem hnd, lookup_eq_some_iff_mem hnd', hperm.mem_iff]

theorem FieldIs.cases {α : Type} {entries : List (String × Value)} {key : String} {absent a : α}
    {reads : Value → α → Prop} {p : α → Prop} (h : FieldIs entries key absent reads a)
    (habsent : p absent) (hreads : ∀ v a, reads v a → p a) : p a := by
  rcases h with ⟨-, rfl⟩ | ⟨v, -, hv⟩
  · exact habsent
  · exact hreads v a hv

theorem FieldIs.perm {α : Type} {entries entries' : List (String × Value)} {key : String}
    {absent a : α} {reads : Value → α → Prop} (h : FieldIs entries key absent reads a)
    (hperm : entries.Perm entries') (hnd : (entries.map (·.1)).Nodup) :
    FieldIs entries' key absent reads a := by
  rwa [FieldIs, ← lookup_eq_of_perm hperm hnd]

/-- Null stands for an empty list of patterns. -/
theorem FieldIs.eq_nil_of_null {entries : List (String × Value)} {key : String}
    {absent ps : List String} (h : FieldIs entries key absent ReadsPatterns ps)
    (hnull : entries.lookup key = some .null) : ps = [] := by
  rcases h with ⟨hmissing, -⟩ | ⟨v, hv, ⟨-, hps⟩ | ⟨rfl, -⟩⟩
  · cases hmissing.symm.trans hnull
  · exact hps
  · cases hv.symm.trans hnull

theorem ReadsPatterns.isPattern {v : Value} {ps : List String} (h : ReadsPatterns v ps) :
    ∀ p ∈ ps, IsPattern p := by
  rcases h with ⟨-, rfl⟩ | ⟨-, hps⟩
  · simp
  · exact hps

theorem le_of_toIntFrom {least n : Int} {v : Value} (h : v.toIntFrom least = .ok n) :
    least ≤ n := by
  unfold Value.toIntFrom at h
  split at h
  · split at h
    · cases h
    · next hleast =>
      cases h
      omega
  · cases h

theorem toIntFrom_int {least n : Int} (h : least ≤ n) : (Value.int n).toIntFrom least = .ok n := by
  rw [Value.toIntFrom, toInt_int]
  exact if_neg (by omega)

theorem ReportFormat.name_cases (f : ReportFormat) : f.name = "text" ∨ f.name = "json" := by
  cases f
  · exact .inl rfl
  · exact .inr rfl

theorem Config.valid_default : Config.default.Valid where
  includes := by decide
  excludes := by decide
  format := ReportFormat.name_cases _
  jobs := by decide

namespace Config.IsReadFrom

variable {c : Config} {entries : List (String × Value)}

theorem valid (h : c.IsReadFrom entries) : c.Valid where
  includes := h.includes.cases valid_default.includes fun _ _ => ReadsPatterns.isPattern
  excludes := h.excludes.cases valid_default.excludes fun _ _ => ReadsPatterns.isPattern
  format := ReportFormat.name_cases c.format
  jobs := h.jobs.cases valid_default.jobs fun _ _ => le_of_toIntFrom

/-- The order of the keys does not matter. -/
theorem perm {entries' : List (String × Value)} (h : c.IsReadFrom entries)
    (hperm : entries.Perm entries') (hnd : (entries.map (·.1)).Nodup) : c.IsReadFrom entries' where
  known entry hentry := h.known entry (hperm.mem_iff.2 hentry)
  enabled := h.enabled.perm hperm hnd
  includes := h.includes.perm hperm hnd
  excludes := h.excludes.perm hperm hnd
  nested := h.nested.perm hperm hnd
  format := h.format.perm hperm hnd
  jobs := h.jobs.perm hperm hnd

end Config.IsReadFrom

theorem exists_entries_of_ofValue {v : Value} {c : Config} (h : Config.ofValue v = .ok c) :
    ∃ entries, v = .table entries ∧ c.IsReadFrom entries := by
  cases v with
  | table entries => exact ⟨entries, rfl, ofEntries_eq_ok_iff.1 h⟩
  | _ => cases h

theorem valid_of_ofValue {v : Value} {c : Config} (h : Config.ofValue v = .ok c) : c.Valid := by
  obtain ⟨_, -, hread⟩ := exists_entries_of_ofValue h
  exact hread.valid

/-- A valid configuration is read from what it writes. -/
theorem Config.ofValue_toValue {c : Config} (h : c.Valid) : Config.ofValue c.toValue = .ok c := by
  rw [toValue, ofValue, ofEntries_eq_ok_iff]
  exact
    { known := by simp [keys]
      enabled := .inr ⟨_, rfl, toBool_bool c.enabled⟩
      includes := .inr ⟨_, rfl, .inr ⟨rfl, h.includes⟩⟩
      excludes := .inr ⟨_, rfl, .inr ⟨rfl, h.excludes⟩⟩
      nested := .inr ⟨_, rfl, toBool_bool c.nestedGitignore⟩
      format := .inr ⟨_, rfl, by cases c.format <;> rfl⟩
      jobs := .inr ⟨_, rfl, toIntFrom_int h.jobs⟩ }

/-! ## Top theorem -/

/-- What is read from a value is read from a table that has no other keys; it is valid, and null
stands for an empty list of patterns.  The order of the keys does not matter, and the configuration
written out with all its keys is read as itself. -/
theorem ofValue_valid_and_fixed {v : Value} {c : Config} (h : Config.ofValue v = .ok c) :
    ∃ entries, v = .table entries ∧ (∀ entry ∈ entries, entry.1 ∈ Config.keys) ∧ c.Valid ∧
      (entries.lookup "include" = some .null → c.includes = []) ∧
      (entries.lookup "exclude" = some .null → c.excludes = []) ∧
      (∀ entries', entries.Perm entries' → (entries.map (·.1)).Nodup →
        Config.ofValue (.table entries') = .ok c) ∧
      Config.ofValue c.toValue = .ok c := by
  obtain ⟨entries, rfl, hread⟩ := exists_entries_of_ofValue h
  refine ⟨entries, rfl, hread.known, hread.valid, hread.includes.eq_nil_of_null,
    hread.excludes.eq_nil_of_null, fun entries' hperm hnd => ?_, Config.ofValue_toValue hread.valid⟩
  exact ofEntries_eq_ok_iff.2 (hread.perm hperm hnd)

/-- A configuration whose fields are written in other forms than their own, with a list left
null. -/
def looseEntries : List (String × Value) :=
  [("jobs", .str " +1_0.00 "), ("exclude", .null), ("enabled", .str "OFF"),
    ("include", .list [.str " *.rb "]), ("nested_gitignore", .float (.finite false 1 0))]

theorem ofValue_looseEntries :
    ∃ c, Config.ofValue (.table looseEntries) = .ok c ∧ c.Valid ∧ c.excludes = [] ∧ c.jobs = 10 ∧
      Config.ofValue (.table looseEntries.reverse) = .ok c ∧ Config.ofValue c.toValue = .ok c := by
  have hread : Config.ofValue (.table looseEntries) = .ok
      { Config.default with
        enabled := false, includes := [" *.rb "], nestedGitignore := true, jobs := 10 } := by
    decide +kernel
  obtain ⟨entries, heq, -, hvalid, -, hnull, hperm, hfixed⟩ := ofValue_valid_and_fixed hread
  cases heq
  exact ⟨_, hread, hvalid, hnull rfl, rfl,
    hperm _ (List.reverse_perm looseEntries).symm (by decide), hfixed⟩

end CallAlign
