import CallAlign.Proofs.DiscoveredFiles

/-!
# The directories that a search visits

A search visits the directory that it begins in, and from there on the directories that are neither
hidden nor left out (`Search.Visits`).  All tests that a directory has inherited were made by
directories above it, and each of them has let it stay.  So an error of a walk is one of a directory
that was visited: of making its test, or of the test (`Search.Fails`).

    Visits.mem_inherited : the tests of the directories above are inherited
    Visits.stays         : a visited directory was left out by no directory above it
    fails_of_walk        : a walk fails with a visited directory
-/

namespace CallAlign

/-! ## Tests in a row -/

section Tests

variable {ε : Type} {tests : List (PathTest ε)} {path here : Path} {e : ε}

/-- A path stays when every test lets it stay. -/
theorem leftOut_eq_false_iff :
    leftOut tests path = .ok false ↔ ∀ test ∈ tests, test path = .ok false := by
  induction tests with
  | nil => simp [leftOut]
  | cons test rest ih =>
    rw [leftOut, bind_eq_ok, List.forall_mem_cons, ← ih]
    constructor
    · rintro ⟨out, hout, hrest⟩
      cases out with
      | true => cases hrest
      | false => exact ⟨hout, hrest⟩
    · rintro ⟨hout, hrest⟩
      exact ⟨false, hout, hrest⟩

theorem exists_test_of_leftOut (h : leftOut tests path = .error e) :
    ∃ test ∈ tests, test path = .error e := by
  induction tests with
  | nil => cases h
  | cons test rest ih =>
    rcases bind_eq_error.1 h with htest | ⟨out, -, h⟩
    · exact ⟨test, List.mem_cons_self, htest⟩
    · cases out with
      | true => cases h
      | false =>
        obtain ⟨other, hmem, hother⟩ := ih h
        exact ⟨other, .tail _ hmem, hother⟩

/-- Asking about some entries fails with one of the tests and one of the entries. -/
theorem exists_test_of_remaining {α : Type} {candidates : List (String × α)}
    (h : remaining tests here candidates = .error e) :
    ∃ test ∈ tests, ∃ entry ∈ candidates, test (here ++ [entry.1]) = .error e := by
  induction candidates with
  | nil => cases h
  | cons entry rest ih =>
    have hlater : remaining tests here rest = .error e →
        ∃ test ∈ tests, ∃ other ∈ entry :: rest, test (here ++ [other.1]) = .error e := by
      intro hrest
      obtain ⟨test, htest, other, hother, hask⟩ := ih hrest
      exact ⟨test, htest, other, .tail _ hother, hask⟩
    rcases bind_eq_error.1 h with hout | ⟨out, -, h⟩
    · obtain ⟨test, hmem, htest⟩ := exists_test_of_leftOut hout
      exact ⟨test, hmem, entry, List.mem_cons_self, htest⟩
    · cases out with
      | true => exact hlater h
      | false =>
        rcases bind_eq_error.1 h with h | ⟨more, -, h⟩
        · exact hlater h
        · cases h

/-- Below a directory the tests from above are still asked. -/
theorem subset_of_testsAt {s : Search ε} {inherited : List (PathTest ε)}
    (h : s.testsAt inherited here = .ok tests) : inherited ⊆ tests := by
  unfold Search.testsAt at h
  split at h
  · obtain ⟨own, -, h⟩ := bind_eq_ok.1 h
    cases h
    exact List.subset_append_left inherited own.toList
  · cases h
    exact fun _ htest => htest

end Tests

/-! ## Visits -/

/-- A path leads to a directory through directories that are not hidden. -/
structure Reached (entries : List (String × Entry)) (dir : Path)
    (inner : List (String × Entry)) : Prop where
  found : (Entry.directory entries).at? dir = some (.directory inner)
  shown : ∀ name ∈ dir, name.toList.head? ≠ some '.'

/-- The search comes to a directory, with tests that it has inherited. -/
inductive Search.Visits {ε : Type} (s : Search ε) (entries : List (String × Entry)) :
    List (PathTest ε) → Path → List (String × Entry) → Prop where
  | start {first : Option (PathTest ε)} : s.testAt [] = .ok first →
      s.Visits entries first.toList [] entries
  | inside {inherited tests : List (PathTest ε)} {here : Path}
      {inner deeper : List (String × Entry)} {name : String} :
      s.Visits entries inherited here inner → s.testsAt inherited here = .ok tests →
      (name, .directory deeper) ∈ inner → isHidden name = false →
      leftOut tests (here ++ [name]) = .ok false →
      s.Visits entries tests (here ++ [name]) deeper

section Visits

variable {ε : Type} {s : Search ε} {entries inner : List (String × Entry)}
variable {inherited : List (PathTest ε)} {here : Path}

theorem Reached.nil (entries : List (String × Entry)) : Reached entries [] entries :=
  ⟨Entry.at?_nil _, by simp⟩

theorem Reached.at?_append (h : Reached entries here inner)
    (hwf : (Entry.directory inner).isWellFormed = true) {name : String} {e : Entry}
    (hmem : (name, e) ∈ inner) : (Entry.directory entries).at? (here ++ [name]) = some e := by
  rw [Entry.at?_append, h.found, Option.bind_some, Entry.at?_cons_of_mem hwf hmem]
  exact Entry.at?_nil _

theorem Search.Visits.reached (hwf : (Entry.directory entries).isWellFormed = true)
    (h : s.Visits entries inherited here inner) : Reached entries here inner := by
  induction h with
  | start _ => exact .nil entries
  | inside _ _ hmem hopen _ ih =>
    have hinner := (Entry.isWellFormed_of_at? hwf ih.found).1
    refine ⟨ih.at?_append hinner hmem, fun other hother => ?_⟩
    rcases List.mem_append.1 hother with hother | hother
    · exact ih.shown other hother
    · rw [List.mem_singleton.1 hother]
      exact (isHidden_eq_false_iff _).1 hopen

/-- The tests that directories above make are inherited. -/
theorem Search.Visits.mem_inherited (h : s.Visits entries inherited here inner) {dir : Path}
    {test : PathTest ε} (hdir : dir <+: here) (hasks : dir = [] ∨ s.nested = true ∧ dir ≠ here)
    (htest : s.testAt dir = .ok (some test)) : test ∈ inherited := by
  induction h with
  | start hfirst =>
    obtain rfl := List.prefix_nil.1 hdir
    cases hfirst.symm.trans htest
    exact List.mem_singleton_self test
  | @inside inherited tests here _ _ name _ htests _ _ _ ih =>
    have hkept := subset_of_testsAt htests
    rcases List.prefix_concat_iff.1 hdir with rfl | hdir
    · exact absurd hasks (by simp)
    · by_cases hnew : s.nested = true ∧ dir = here ∧ dir ≠ []
      · obtain ⟨hnested, rfl, hne⟩ := hnew
        have hown : (s.nested && !dir.isEmpty) = true := by simp [hnested, hne]
        rw [Search.testsAt, if_pos hown, htest] at htests
        cases htests
        exact List.mem_append_right _ (List.mem_singleton_self test)
      · refine hkept (ih hdir ?_)
        by_cases hne : dir = []
        · exact .inl hne
        · have hnested := (hasks.resolve_left hne).1
          exact .inr ⟨hnested, fun heq => hnew ⟨hnested, heq, hne⟩⟩

/-- A visited directory, and each on the way to it, was left out by no directory above. -/
theorem Search.Visits.stays (h : s.Visits entries inherited here inner) {way dir : Path}
    {test : PathTest ε} (hne : way ≠ []) (hway : way <+: here) (hdir : dir <+: way)
    (hbelow : dir ≠ way) (hasks : dir = [] ∨ s.nested = true)
    (htest : s.testAt dir = .ok (some test)) : test way = .ok false := by
  induction h with
  | start _ => exact absurd (List.prefix_nil.1 hway) hne
  | inside hvisits htests hmem hopen hkeep ih =>
    rcases List.prefix_concat_iff.1 hway with rfl | hway
    · have hnext := Search.Visits.inside hvisits htests hmem hopen hkeep
      have hasks := hasks.imp_right fun hnested => And.intro hnested hbelow
      exact leftOut_eq_false_iff.1 hkeep test (hnext.mem_inherited hdir hasks htest)
    · exact ih hway

end Visits

/-! ## Errors -/

section Errors

variable {ε : Type} {s : Search ε} {entries inner : List (String × Entry)}
variable {inherited : List (PathTest ε)} {here : Path} {e : ε}

/-- The directories whose tests a search makes: the one that it begins in, and with nested tests all
that it visits. -/
def Search.Consults (s : Search ε) (entries : List (String × Entry)) (dir : Path) : Prop :=
  dir = [] ∨ s.nested = true ∧ ∃ inherited inner, s.Visits entries inherited dir inner

/-- A directory that a search consults makes no test because of the error, or one that ends in the
error for a path of the tree. -/
def Search.Fails (s : Search ε) (entries : List (String × Entry)) (e : ε) : Prop :=
  ∃ dir, s.Consults entries dir ∧
    (s.testAt dir = .error e ∨ ∃ test path found, s.testAt dir = .ok (some test) ∧
      (Entry.directory entries).at? path = some found ∧ test path = .error e)

/-- Every test that a search asks was made by a directory that it consults. -/
theorem exists_dir_of_testsAt (h : s.Visits entries inherited here inner)
    {tests : List (PathTest ε)}
    (hmade : ∀ test ∈ inherited, ∃ dir, s.Consults entries dir ∧ s.testAt dir = .ok (some test))
    (htests : s.testsAt inherited here = .ok tests) :
    ∀ test ∈ tests, ∃ dir, s.Consults entries dir ∧ s.testAt dir = .ok (some test) := by
  unfold Search.testsAt at htests
  split at htests
  · next hasks =>
    obtain ⟨own, hown, htests⟩ := bind_eq_ok.1 htests
    cases htests
    intro test htest
    rcases List.mem_append.1 htest with htest | htest
    · exact hmade test htest
    · obtain rfl := Option.mem_toList.1 htest
      exact ⟨here, .inr ⟨(Bool.and_eq_true_iff.1 hasks).1, inherited, inner, h⟩, hown⟩
  · cases htests
    exact hmade

theorem Search.Visits.exists_dir (h : s.Visits entries inherited here inner) :
    ∀ test ∈ inherited, ∃ dir, s.Consults entries dir ∧ s.testAt dir = .ok (some test) := by
  induction h with
  | start hfirst =>
    intro test htest
    obtain rfl := Option.mem_toList.1 htest
    exact ⟨[], .inl rfl, hfirst⟩
  | inside hvisits htests _ _ _ ih => exact exists_dir_of_testsAt hvisits ih htests

/-- A visit that fails is that of a directory which is at fault, or is above one. -/
theorem fails_of_visit (hwf : (Entry.directory entries).isWellFormed = true)
    (hvisits : s.Visits entries inherited here inner)
    (h : s.visit inherited here inner = .error e) : s.Fails entries e := by
  have hreached := hvisits.reached hwf
  have hinner := (Entry.isWellFormed_of_at? hwf hreached.found).1
  rcases bind_eq_error.1 h with h | ⟨tests, htests, h⟩
  · -- the directory makes no test
    unfold Search.testsAt at h
    split at h
    · next hasks =>
      rcases bind_eq_error.1 h with h | ⟨own, -, h⟩
      · exact ⟨here, .inr ⟨(Bool.and_eq_true_iff.1 hasks).1, inherited, inner, hvisits⟩, .inl h⟩
      · cases h
    · cases h
  have hask : ∀ {α : Type} {candidates : List (String × α)} (entryOf : String × α → Entry),
      (∀ entry ∈ candidates, (entry.1, entryOf entry) ∈ inner) →
      remaining tests here candidates = .error e → s.Fails entries e := by
    intro α candidates entryOf hcandidates hremaining
    obtain ⟨test, htest, entry, hentry, hasked⟩ := exists_test_of_remaining hremaining
    obtain ⟨dir, hdir, hmade⟩ :=
      exists_dir_of_testsAt hvisits hvisits.exists_dir htests test htest
    have hat := hreached.at?_append hinner (hcandidates entry hentry)
    exact ⟨dir, hdir, .inr ⟨test, _, _, hmade, hat, hasked⟩⟩
  rcases bind_eq_error.1 h with h | ⟨_, -, h⟩
  · refine hask (fun entry => .directory entry.2) (fun entry hentry => ?_) h
    exact ((mem_openDirectories inner _ _).1 ((sortByName_perm _).mem_iff.1 hentry)).1
  rcases bind_eq_error.1 h with h | ⟨_, -, h⟩
  · exact hask Prod.snd (fun entry hentry => (List.mem_filter.1 hentry).1) h
  · cases h

/-- What holds whenever a walk goes on: it visits the pending directories, with the tests that the
table has for them. -/
def Search.Traced (s : Search ε) (entries : List (String × Entry)) (pending : List Pending)
    (kept : TestTable ε) : Prop :=
  ∀ d ∈ pending, ∃ tests, kept.lookup d.1 = some tests ∧ s.Visits entries tests d.1 d.2

variable {later : List Pending} {kept : TestTable ε} {v : Visit ε}

/-- A visit keeps the invariant. -/
theorem Search.Traced.visit (h : s.Traced entries ((here, inner) :: later) kept)
    (hready : Ready ((here, inner) :: later) kept)
    (hvisits : s.Visits entries inherited here inner)
    (hvisit : s.visit inherited here inner = .ok v) :
    s.Traced entries (v.pending here ++ later) (v.table here kept) := by
  intro d hd
  rcases List.mem_append.1 hd with hd | hd
  · refine ⟨v.tests, lookup_table_of_pending hd kept, ?_⟩
    obtain ⟨name, hdir, hpath⟩ := (mem_pending v here d).1 hd
    obtain ⟨hmem, hopen, hkeep⟩ := (Search.mem_directories hvisit name d.2).1 hdir
    rw [hpath]
    exact .inside hvisits (Search.visit_eq_ok hvisit).1 hmem hopen hkeep
  · rw [lookup_table_of_apart (hready.apart_of_later hd)]
    exact h d (.tail _ hd)

theorem fails_of_walkFrom (hwf : (Entry.directory entries).isWellFormed = true)
    {pending : List Pending} (hready : Ready pending kept) (h : s.Traced entries pending kept)
    (hwalk : s.walkFrom pending kept = .error e) : s.Fails entries e := by
  -- by induction on the weight, which every visit makes smaller
  induction hweight : weight pending using Nat.strongRecOn generalizing pending kept with
  | ind n ih =>
    cases pending with
    | nil =>
      rw [Search.walkFrom_nil] at hwalk
      cases hwalk
    | cons d later =>
      obtain ⟨here, inner⟩ := d
      obtain ⟨inherited, hlookup, hvisits⟩ := h _ List.mem_cons_self
      rw [Search.walkFrom_cons, hlookup] at hwalk
      rcases bind_eq_error.1 hwalk with hvisit | ⟨v, hvisit, hwalk⟩
      · exact fails_of_visit hwf hvisits hvisit
      rcases bind_eq_error.1 hwalk with hrest | ⟨found, -, hwalk⟩
      · have hless := Search.weight_lt_of_visit hvisit later
        exact ih _ (hweight ▸ hless) (hready.visit hvisit) (h.visit hready hvisits hvisit) hrest rfl
      · cases hwalk

/-- A walk fails with a directory that it consults. -/
theorem fails_of_walk (hwf : (Entry.directory entries).isWellFormed = true)
    (h : s.walk entries = .error e) : s.Fails entries e := by
  rcases bind_eq_error.1 h with h | ⟨first, hfirst, h⟩
  · exact ⟨[], .inl rfl, .inl h⟩
  refine fails_of_walkFrom hwf (Ready.start hwf first.toList) ?_ h
  intro d hd
  rw [List.mem_singleton.1 hd]
  exact ⟨first.toList, by simp, .start hfirst⟩

end Errors

end CallAlign
