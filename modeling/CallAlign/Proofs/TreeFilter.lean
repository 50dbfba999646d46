import CallAlign.Proofs.VisitedDirectories

/-!
# Discovery as a filter

When ignore files stand for predicates on paths, discovery succeeds, and the files it gives are
those of the whole tree that pass a filter (`IsTaken`).  The filter looks at one path at a time: at
the names on it, and at what the ignore files above it say of it and of the directories it leads
through.  An ignore file may be a link, but none that discovery looks for (`IsConsulted`) may lead
to a name that is too long.

    keeps_iff_unmatched : what a search keeps, told from the whole path
    isConsulted         : the directories whose tests a search makes, told from the tree
    discover_eq_filter  : discovery gives the files that pass the filter, once and in order
-/

namespace CallAlign

/-! ## Tests that are predicates -/

/-- The test that a predicate on paths makes. -/
def answering {ε : Type} (matcher : Path → Bool) : PathTest ε := fun path => .ok (matcher path)

/-- The tests that some predicates make. -/
def answeringAll {ε : Type} (matchers : List (Path → Bool)) : List (PathTest ε) :=
  matchers.map answering

theorem leftOut_answeringAll {ε : Type} (matchers : List (Path → Bool)) (path : Path) :
    leftOut (answeringAll (ε := ε) matchers) path = .ok (matchers.any (· path)) := by
  induction matchers with
  | nil => rfl
  | cons matcher rest ih =>
    rw [List.any_cons, answeringAll, List.map_cons, leftOut]
    cases hout : matcher path with
    | true => simp [answering, hout, bind, Except.bind, pure, Except.pure]
    | false => simpa [answering, answeringAll, hout, bind, Except.bind] using ih

theorem leftOut_answeringAll_iff {ε : Type} (matchers : List (Path → Bool)) (path : Path) :
    leftOut (answeringAll (ε := ε) matchers) path = .ok false ↔
      ∀ matcher ∈ matchers, matcher path = false := by
  rw [leftOut_answeringAll, Except.ok.injEq, List.any_eq_false]
  simp

/-- No predicate takes out a path below `here` or a directory on the way: neither those from above
nor those that `own` gives for the directories from `here` down to the one that holds it. -/
def Unmatched (own : Path → List (Path → Bool)) (above : List (Path → Bool)) (here rest : Path) :
    Prop :=
  ∀ way, way ≠ [] → way <+: rest →
    (∀ matcher ∈ above, matcher (here ++ way) = false) ∧
      ∀ dir, dir <+: way → dir ≠ way →
        ∀ matcher ∈ own (here ++ dir), matcher (here ++ way) = false

/-- Going down into a directory, its own predicates come in. -/
theorem unmatched_cons (own : Path → List (Path → Bool)) (above : List (Path → Bool))
    (here rest : Path) (name : String) :
    Unmatched own above here (name :: rest) ↔
      (∀ matcher ∈ above ++ own here, matcher (here ++ [name]) = false) ∧
        Unmatched own (above ++ own here) (here ++ [name]) rest := by
  have hshift : ∀ way : Path, here ++ [name] ++ way = here ++ name :: way := by simp
  constructor
  · intro h
    -- a way that begins with the name is asked about here with `dir = []`, else further down
    have hhere : ∀ way, way <+: rest → ∀ matcher ∈ above ++ own here,
        matcher (here ++ name :: way) = false := by
      intro way hway matcher hmatcher
      obtain ⟨habove, hown⟩ := h (name :: way) (by simp) (List.cons_prefix_cons.2 ⟨rfl, hway⟩)
      rcases List.mem_append.1 hmatcher with hmatcher | hmatcher
      · exact habove matcher hmatcher
      · exact hown [] List.nil_prefix (by simp) matcher (by simpa using hmatcher)
    refine ⟨hhere [] List.nil_prefix, fun way hne hway => ⟨?_, ?_⟩⟩
    · rw [hshift]
      exact hhere way hway
    · intro dir hdir hne' matcher hmatcher
      rw [hshift] at hmatcher ⊢
      have hbelow := (h (name :: way) (by simp) (List.cons_prefix_cons.2 ⟨rfl, hway⟩)).2
      exact hbelow (name :: dir) (List.cons_prefix_cons.2 ⟨rfl, hdir⟩) (by simpa using hne')
        matcher hmatcher
  · rintro ⟨hfirst, hrest⟩ way hne hway
    obtain ⟨tail, rfl, htail⟩ := (List.prefix_cons_iff.1 hway).resolve_left hne
    have hhere : ∀ matcher ∈ above ++ own here, matcher (here ++ name :: tail) = false := by
      by_cases hempty : tail = []
      · rw [hempty]
        exact hfirst
      · rw [← hshift]
        exact (hrest tail hempty htail).1
    refine ⟨fun matcher hmatcher => hhere matcher (List.mem_append_left _ hmatcher), ?_⟩
    intro dir hdir hne' matcher hmatcher
    rcases List.prefix_cons_iff.1 hdir with rfl | ⟨below, rfl, hbelow⟩
    · rw [List.append_nil] at hmatcher
      exact hhere matcher (List.mem_append_right _ hmatcher)
    · have hempty : tail ≠ [] := by
        rintro rfl
        exact hne' (by rw [List.prefix_nil.1 hbelow])
      rw [← hshift] at hmatcher ⊢
      exact (hrest tail hempty htail).2 below hbelow (by simpa using hne') matcher hmatcher

theorem unmatched_nil (own : Path → List (Path → Bool)) (above : List (Path → Bool)) (here : Path) :
    Unmatched own above here [] :=
  fun _ hne hway => absurd (List.prefix_nil.1 hway) hne

/-! ## What a search keeps, told from the whole path -/

section Keeps

variable {ε : Type} {s : Search ε} {entries : List (String × Entry)}

/-- What is kept, by the first name on its path from the directory. -/
theorem keeps_cons_iff (hwf : (Entry.directory entries).isWellFormed = true)
    {inherited tests : List (PathTest ε)} {here : Path}
    (htests : s.testsAt inherited here = .ok tests) (name : String) (rest : Path) :
    s.Keeps inherited here entries (here ++ name :: rest) ↔
      leftOut tests (here ++ [name]) = .ok false ∧
        (rest = [] ∧ (∃ contents, (name, .file contents) ∈ entries) ∧
            s.selects (Path.relativeText (here ++ name :: rest)) = true ∨
          ∃ inner, (name, .directory inner) ∈ entries ∧ isHidden name = false ∧
            s.Keeps tests (here ++ [name]) inner (here ++ [name] ++ rest)) := by
  constructor
  · intro hkeeps
    generalize hpath : here ++ name :: rest = path at hkeeps
    cases hkeeps with
    | file htests' hmem hkeep hselects =>
      rw [htests] at htests'
      cases htests'
      cases List.append_cancel_left hpath
      exact ⟨hkeep, .inl ⟨rfl, ⟨_, hmem⟩, hselects⟩⟩
    | directory htests' hmem hopen hkeep hbelow =>
      rw [htests] at htests'
      cases htests'
      obtain ⟨next, more, contents, rfl, -⟩ :=
        hbelow.exists_file (Entry.isWellFormed_of_mem hwf hmem).2
      rw [List.append_assoc] at hpath
      cases List.append_cancel_left hpath
      exact ⟨hkeep, .inr ⟨_, hmem, hopen, hbelow⟩⟩
  · rintro ⟨hkeep, ⟨rfl, ⟨contents, hmem⟩, hselects⟩ | ⟨inner, hmem, hopen, hbelow⟩⟩
    · exact .file htests hmem hkeep hselects
    · rw [List.append_assoc] at hbelow
      exact .directory htests hmem hopen hkeep hbelow

/-- The predicate of a directory, where a search asks for it on its way down. -/
def Search.ownMatchers (s : Search ε) (matcherAt : Path → Option (Path → Bool)) (dir : Path) :
    List (Path → Bool) :=
  if s.nested && !dir.isEmpty then (matcherAt dir).toList else []

variable {matcherAt : Path → Option (Path → Bool)}

theorem testsAt_answeringAll (above : List (Path → Bool)) (here : Path)
    (hs : s.nested = true → s.testAt here = .ok ((matcherAt here).map answering)) :
    s.testsAt (answeringAll above) here =
      .ok (answeringAll (above ++ s.ownMatchers matcherAt here)) := by
  unfold Search.testsAt Search.ownMatchers
  split
  · next hasks =>
    rw [hs (Bool.and_eq_true_iff.1 hasks).1]
    cases matcherAt here <;> simp [answeringAll, bind, Except.bind, pure, Except.pure]
  · simp

/-- What a search keeps below a directory, when predicates leave paths out.  Only the tests of
directories that the search comes to have to be made. -/
theorem keeps_iff_unmatched (hwf : (Entry.directory entries).isWellFormed = true)
    (above : List (Path → Bool)) (here rest : Path)
    (hs : ∀ dir inner, Reached entries dir inner →
      Unmatched (s.ownMatchers matcherAt) above here dir → s.nested = true →
      s.testAt (here ++ dir) = .ok ((matcherAt (here ++ dir)).map answering)) :
    s.Keeps (answeringAll above) here entries (here ++ rest) ↔
      (∃ contents, (Entry.directory entries).at? rest = some (.file contents)) ∧
        (∀ name ∈ rest.dropLast, isHidden name = false) ∧
        s.selects (Path.relativeText (here ++ rest)) = true ∧
        Unmatched (s.ownMatchers matcherAt) above here rest := by
  induction rest generalizing entries above here with
  | nil =>
    constructor
    · intro hkeeps
      obtain ⟨name, rest, contents, hpath, -⟩ := hkeeps.exists_file hwf
      cases List.append_cancel_left hpath
    · rintro ⟨⟨contents, hat⟩, -⟩
      cases hat
  | cons name rest ih =>
    have hnd := ((Entry.isWellFormed_directory_iff entries).1 hwf).1
    have hown := hs [] entries (.nil entries) (unmatched_nil _ _ _)
    rw [List.append_nil] at hown
    rw [keeps_cons_iff hwf (testsAt_answeringAll above here hown), leftOut_answeringAll_iff,
      unmatched_cons]
    -- the tests inside a directory that stays are tests further down
    have hinside : ∀ inner, (name, .directory inner) ∈ entries → isHidden name = false →
        (∀ matcher ∈ above ++ s.ownMatchers matcherAt here, matcher (here ++ [name]) = false) →
        ∀ dir deeper, Reached inner dir deeper →
          Unmatched (s.ownMatchers matcherAt) (above ++ s.ownMatchers matcherAt here)
            (here ++ [name]) dir → s.nested = true →
          s.testAt (here ++ [name] ++ dir) =
            .ok ((matcherAt (here ++ [name] ++ dir)).map answering) := by
      intro inner hmem hopen hkeep dir deeper hreached hunmatched hnested
      have hdir : Reached entries (name :: dir) deeper :=
        ⟨(Entry.at?_cons_of_mem hwf hmem dir).trans hreached.found,
          List.forall_mem_cons.2 ⟨(isHidden_eq_false_iff name).1 hopen, hreached.shown⟩⟩
      rw [List.append_assoc]
      exact hs (name :: dir) deeper hdir ((unmatched_cons _ _ _ _ _).2 ⟨hkeep, hunmatched⟩) hnested
    constructor
    · rintro ⟨hkeep, ⟨rfl, ⟨contents, hmem⟩, hselects⟩ | ⟨inner, hmem, hopen, hbelow⟩⟩
      · have hat := Entry.at?_cons_of_mem hwf hmem []
        exact ⟨⟨contents, hat⟩, by simp, hselects, hkeep, unmatched_nil _ _ _⟩
      · obtain ⟨⟨contents, hat⟩, hnames, hselects, hbelow⟩ :=
          (ih (Entry.isWellFormed_of_mem hwf hmem).2 _ _ (hinside inner hmem hopen hkeep)).1 hbelow
        have hne : rest ≠ [] := by
          rintro rfl
          cases hat
        rw [← Entry.at?_cons_of_mem hwf hmem] at hat
        rw [List.append_assoc] at hselects
        refine ⟨⟨contents, hat⟩, ?_, hselects, hkeep, hbelow⟩
        rw [List.dropLast_cons_of_ne_nil hne]
        exact List.forall_mem_cons.2 ⟨hopen, hnames⟩
    · rintro ⟨⟨contents, hat⟩, hnames, hselects, hkeep, hbelow⟩
      refine ⟨hkeep, ?_⟩
      obtain ⟨_, e, heq, hlookup, hrest⟩ := Entry.exists_of_at?_cons hat
      cases heq
      have hmem := (lookup_eq_some_iff_mem hnd).1 hlookup
      cases e with
      | file contents' =>
        cases rest with
        | nil => exact .inl ⟨rfl, ⟨contents', hmem⟩, hselects⟩
        | cons next more => cases hrest
      | link target => cases rest <;> cases hrest
      | directory inner =>
        have hne : rest ≠ [] := by
          rintro rfl
          cases hrest
        rw [List.dropLast_cons_of_ne_nil hne] at hnames
        obtain ⟨hopen, hnames⟩ := List.forall_mem_cons.1 hnames
        have hpath : here ++ [name] ++ rest = here ++ name :: rest := List.append_assoc _ _ _
        have hinner := (Entry.isWellFormed_of_mem hwf hmem).2
        refine .inr ⟨inner, hmem, hopen, (ih hinner _ _ (hinside inner hmem hopen hkeep)).2
          ⟨⟨contents, hrest⟩, hnames, ?_, hbelow⟩⟩
        rw [hpath]
        exact hselects

end Keeps

/-! ## The filter -/

/-- The ignore file of a directory counts for a path: the path lies below it, and it is the
directory that is searched, or the configuration asks for those further down. -/
def Config.Heeds (config : Config) (dir path : Path) : Prop :=
  dir <+: path ∧ dir ≠ path ∧ (dir = [] ∨ config.nestedGitignore = true)

/-- No ignore file that counts leaves out what the path leads to, or a directory on the way. -/
def NotIgnored (fs : FileSystem) (root : Path) (config : Config) (ignored : Path → Path → Bool)
    (path : Path) : Prop :=
  ∀ way, way ≠ [] → way <+: path → ∀ dir, config.Heeds dir way → HasIgnoreFile fs root dir →
    ignored dir way = false

/-- The filter, for paths below the directory `root` with these entries: the path leads to a file
without following links, no directory on it is hidden, no ignore file that counts leaves out the
file or a directory on the way, and the patterns select the path. -/
structure IsTaken (fs : FileSystem) (root : Path) (config : Config) (ignored : Path → Path → Bool)
    (entries : List (String × Entry)) (path : Path) : Prop where
  isFile : ∃ contents, (Entry.directory entries).at? path = some (.file contents)
  visible : ∀ name ∈ path.dropLast, name.toList.head? ≠ some '.'
  heeded : NotIgnored fs root config ignored path
  included : ∃ glob ∈ config.includes, globMatches glob path.relativeText = true
  notExcluded : ∀ glob ∈ config.excludes, globMatches glob path.relativeText = false

/-- The ignore file of a directory is looked for: the directory is the one that is searched, or the
configuration asks for those further down and the search comes to it, since neither the directory
nor one on the way is hidden or left out. -/
structure IsConsulted (fs : FileSystem) (root : Path) (config : Config)
    (ignored : Path → Path → Bool) (entries : List (String × Entry)) (dir : Path) : Prop where
  isDirectory : ∃ inner, (Entry.directory entries).at? dir = some (.directory inner)
  visible : ∀ name ∈ dir, name.toList.head? ≠ some '.'
  heeded : NotIgnored fs root config ignored dir
  counts : dir = [] ∨ config.nestedGitignore = true

/-- The predicate that the ignore file of a directory stands for, if there is one. -/
def matcherAt (fs : FileSystem) (root : Path) (ignored : Path → Path → Bool) (dir : Path) :
    Option (Path → Bool) :=
  match fs.isFile (root ++ dir ++ [ignoreFileName]) with
  | .ok true => some (ignored dir)
  | _ => none

theorem forall_matcherAt_iff (fs : FileSystem) (root : Path) (ignored : Path → Path → Bool)
    (dir path : Path) :
    (∀ matcher ∈ (matcherAt fs root ignored dir).toList, matcher path = false) ↔
      (HasIgnoreFile fs root dir → ignored dir path = false) := by
  rw [HasIgnoreFile, ← FileSystem.isFile_iff]
  unfold matcherAt
  split
  · next h => simp [h, -List.append_assoc]
  · next h => exact iff_of_true (by simp) fun hfile => absurd hfile h

section Filter

variable {ε : Type} {ignore : IgnoreReader ε} {fs : FileSystem} {root : Path}
variable {config : Config} {entries : List (String × Entry)} {ignored : Path → Path → Bool}

/-- The test of an ignore file that can be looked up. -/
theorem ignoreTest_eq_matcherAt {dir : Path}
    (hread : HasIgnoreFile fs root dir → ignore dir = .ok fun path => .ok (ignored dir path))
    (hshort : fs.locate (root ++ dir ++ [ignoreFileName]) ≠ .error .nameTooLong) :
    ignoreTest ignore fs root dir = .ok ((matcherAt fs root ignored dir).map answering) := by
  cases hfile : fs.isFile (root ++ dir ++ [ignoreFileName]) with
  | error e => exact absurd (FileSystem.isFile_eq_error_iff.1 hfile).2 hshort
  | ok found =>
    rw [ignoreTest, matcherAt, hfile]
    cases found with
    | false => rfl
    | true =>
      dsimp only
      rw [hread (FileSystem.isFile_iff.1 hfile)]
      rfl

/-- A test that was made is that of the predicate. -/
theorem eq_ignored_of_ignoreTest {dir : Path} {test : PathTest (SearchError ε)}
    (hread : HasIgnoreFile fs root dir → ignore dir = .ok fun path => .ok (ignored dir path))
    (h : ignoreTest ignore fs root dir = .ok (some test)) :
    HasIgnoreFile fs root dir ∧ ∀ path, test path = .ok (ignored dir path) := by
  obtain ⟨hfile, own, hown, rfl⟩ := ignoreTest_eq_some_iff.1 h
  cases (hread hfile).symm.trans hown
  exact ⟨hfile, fun path => rfl⟩

/-- From the directory that is searched down, no predicate that counts takes a path out. -/
theorem unmatched_iff (testAt : Path → Except ε (Option (PathTest ε))) (path : Path) :
    Unmatched ((config.search testAt).ownMatchers (matcherAt fs root ignored))
        (matcherAt fs root ignored []).toList [] path ↔
      NotIgnored fs root config ignored path := by
  constructor
  · intro h way hne hway dir ⟨hdir, hne', hheeds⟩
    obtain ⟨habove, hown⟩ := h way hne hway
    rw [← forall_matcherAt_iff]
    by_cases hroot : dir = []
    · rw [hroot]
      exact habove
    · have hnested := hheeds.resolve_left hroot
      have hown := hown dir hdir hne'
      simpa [Search.ownMatchers, Config.search, hnested, hroot] using hown
  · intro h way hne hway
    constructor
    · exact (forall_matcherAt_iff fs root ignored [] way).2
        (h way hne hway [] ⟨List.nil_prefix, hne.symm, .inl rfl⟩)
    · intro dir hdir hne' matcher hmatcher
      unfold Search.ownMatchers at hmatcher
      split at hmatcher
      · next hasks =>
        have hnested : config.nestedGitignore = true := (Bool.and_eq_true_iff.1 hasks).1
        exact (forall_matcherAt_iff fs root ignored dir way).2
          (h way hne hway dir ⟨hdir, hne', .inr hnested⟩) matcher hmatcher
      · cases hmatcher

/-- A search looks for the ignore files of consulted directories only. -/
theorem isConsulted
    (hread : ∀ dir, HasIgnoreFile fs root dir →
      ignore dir = .ok fun path => .ok (ignored dir path))
    (hwf : (Entry.directory entries).isWellFormed = true) {dir : Path}
    (h : (config.search (ignoreTest ignore fs root)).Consults entries dir) :
    IsConsulted fs root config ignored entries dir := by
  rcases h with rfl | ⟨hnested, inherited, inner, hvisits⟩
  · exact ⟨⟨entries, Entry.at?_nil _⟩, by simp,
      fun way hne hway => absurd (List.prefix_nil.1 hway) hne, .inl rfl⟩
  · have hreached := hvisits.reached hwf
    refine ⟨⟨inner, hreached.found⟩, hreached.shown, ?_, .inr hnested⟩
    intro way hne hway above ⟨habove, hbelow, _⟩ hfile
    -- the test of the directory above was made and has let the way stay
    have htest : ignoreTest ignore fs root above =
        .ok (some (PathTest.lift fun path => .ok (ignored above path))) :=
      ignoreTest_eq_some_iff.2 ⟨hfile, _, hread above hfile, rfl⟩
    have hstays := hvisits.stays hne hway habove hbelow (.inr hnested) htest
    simpa [PathTest.lift, Except.mapError] using hstays

/-! ## Top theorem -/

/-- Discovery gives the files that pass the filter, each once, in strictly increasing order of their
texts, and no visit misses the tests that the table keeps for it.  The ignore files stand for any
predicates on paths; none of those that are looked for leads to a name that is too long. -/
theorem discover_eq_filter (hroot : fs.locate root = .ok (.directory entries))
    (hwf : (Entry.directory entries).isWellFormed = true)
    (hread : ∀ dir, HasIgnoreFile fs root dir →
      ignore dir = .ok fun path => .ok (ignored dir path))
    (hshort : ∀ dir, IsConsulted fs root config ignored entries dir →
      fs.locate (root ++ dir ++ [ignoreFileName]) ≠ .error .nameTooLong) :
    ∃ found, (config.search (ignoreTest ignore fs root)).walk entries = .ok (some found) ∧
      discover ignore fs root config = .ok (sortPaths found) ∧
      ((sortPaths found).Pairwise fun p q => p.relativeText < q.relativeText) ∧
      ∀ path, path ∈ sortPaths found ↔ IsTaken fs root config ignored entries path := by
  let s := config.search (ignoreTest ignore fs root)
  have hmade : ∀ dir, IsConsulted fs root config ignored entries dir →
      s.testAt dir = .ok ((matcherAt fs root ignored dir).map answering) :=
    fun dir hdir => ignoreTest_eq_matcherAt (hread dir) (hshort dir hdir)
  -- the walk does not fail, since every directory that it consults makes a test that answers
  obtain ⟨r, hwalk⟩ : ∃ r, s.walk entries = .ok r := by
    cases hwalk : s.walk entries with
    | ok r => exact ⟨r, rfl⟩
    | error e =>
      obtain ⟨dir, hdir, hfails | ⟨test, path, _, htest, -, hfails⟩⟩ := fails_of_walk hwf hwalk
      · cases hfails.symm.trans (hmade dir (isConsulted hread hwf hdir))
      · cases hfails.symm.trans ((eq_ignored_of_ignoreTest (hread dir) htest).2 path)
  obtain ⟨first, found, hfirst, rfl, -, hfound⟩ := walk_spec _ hwf hwalk
  have hdiscover : discover ignore fs root config = .ok (sortPaths found) := by
    rw [discover, hroot]
    exact bind_eq_ok.2 ⟨some found, hwalk, rfl⟩
  obtain ⟨_, _, hsorted, -⟩ := discover_ok hroot hwf hdiscover
  refine ⟨found, hwalk, hdiscover, hsorted, fun path => ?_⟩
  have hrootMade := hmade [] (isConsulted hread hwf (.inl rfl))
  have hreaches : ∀ dir inner, Reached entries dir inner →
      Unmatched (s.ownMatchers (matcherAt fs root ignored)) (matcherAt fs root ignored []).toList
        [] dir → s.nested = true →
      s.testAt ([] ++ dir) = .ok ((matcherAt fs root ignored ([] ++ dir)).map answering) :=
    fun dir inner hreached hunmatched hnested =>
      hmade dir ⟨⟨inner, hreached.found⟩, hreached.shown, (unmatched_iff _ _).1 hunmatched,
        .inr hnested⟩
  have hkeeps := keeps_iff_unmatched hwf (matcherAt fs root ignored []).toList [] path hreaches
  cases hrootMade.symm.trans hfirst
  rw [(sortPaths_perm found).mem_iff, hfound, Option.toList_map]
  rw [unmatched_iff, List.nil_append] at hkeeps
  refine hkeeps.trans ?_
  simp only [isHidden_eq_false_iff]
  constructor
  · rintro ⟨hfile, hvisible, hselects, hheeded⟩
    obtain ⟨hincluded, hexcluded⟩ := (selects_iff config path.relativeText).1 hselects
    exact ⟨hfile, hvisible, hheeded, hincluded, hexcluded⟩
  · rintro ⟨hfile, hvisible, hheeded, hincluded, hexcluded⟩
    exact ⟨hfile, hvisible, (selects_iff config _).2 ⟨hincluded, hexcluded⟩, hheeded⟩

end Filter

/-- A project with two ignore files, a hidden directory and a link. -/
def sampleProject : List (String × Entry) :=
  [(".gitignore", .file (some "b.rb\n".toUTF8.toList)), ("b.rb", .file none),
    ("lib", .directory
      [("d.rb", .file (some [])), ("b.rb", .file (some [])),
        (".gitignore", .file (some "c.rb\n".toUTF8.toList)), ("c.rb", .file (some []))]),
    ("c.rb", .file (some [])), (".cache", .directory [("a.rb", .file (some []))]),
    ("link.rb", .link ["project", "c.rb"])]

def sampleDisk : FileSystem := ⟨.directory [("project", .directory sampleProject)]⟩

def sampleConfig : Config := { Config.default with includes := ["*.rb"], nestedGitignore := true }

/-- What the ignore files of `sampleProject` say. -/
def sampleIgnored (dir path : Path) : Bool :=
  (path.drop dir.length).contains (if dir = [] then "b.rb" else "c.rb")

def sampleReader : IgnoreReader IgnoreError := fun dir =>
  .ok fun path => .ok (sampleIgnored dir path)

/-- The directories of `sampleProject`. -/
theorem directory_sampleProject {dir : Path} {inner : List (String × Entry)}
    (h : (Entry.directory sampleProject).at? dir = some (.directory inner)) :
    dir = [] ∨ dir = ["lib"] ∨ dir = [".cache"] := by
  have hfiles : ∀ {entries : List (String × Entry)} {rest : Path},
      (∀ entry ∈ entries, entry.2.isFile = true) →
      (Entry.directory entries).at? rest = some (.directory inner) → rest = [] := by
    intro entries rest hall hat
    cases rest with
    | nil => rfl
    | cons name rest =>
      obtain ⟨_, e, heq, hlookup, hrest⟩ := Entry.exists_of_at?_cons hat
      cases heq
      obtain ⟨before, after, rfl, -⟩ := List.lookup_eq_some_iff.1 hlookup
      have hfile := hall (name, e) (by simp)
      cases e with
      | file _ => cases rest <;> cases hrest
      | directory _ => cases hfile
      | link _ => cases hfile
  cases dir with
  | nil => exact .inl rfl
  | cons name rest =>
    obtain ⟨_, e, heq, hlookup, hrest⟩ := Entry.exists_of_at?_cons h
    cases heq
    obtain ⟨before, after, hproject, -⟩ := List.lookup_eq_some_iff.1 hlookup
    have hmem : (name, e) ∈ sampleProject := by simp [hproject]
    simp only [sampleProject, List.mem_cons, List.not_mem_nil, or_false, Prod.mk.injEq] at hmem
    rcases hmem with ⟨-, rfl⟩ | ⟨-, rfl⟩ | ⟨rfl, rfl⟩ | ⟨-, rfl⟩ | ⟨rfl, rfl⟩ | ⟨-, rfl⟩
    · cases rest <;> cases hrest
    · cases rest <;> cases hrest
    · exact .inr (.inl (by rw [hfiles (by decide) hrest]))
    · cases rest <;> cases hrest
    · exact .inr (.inr (by rw [hfiles (by decide) hrest]))
    · cases rest <;> cases hrest

/-- In `sampleProject` the file `lib/d.rb` is discovered, and `lib/c.rb`, which the ignore file of
`lib` leaves out, is not. -/
theorem discover_sampleProject :
    sampleDisk.locate ["project"] = .ok (.directory sampleProject) ∧
      (Entry.directory sampleProject).isWellFormed = true ∧
      ∃ paths, discover sampleReader sampleDisk ["project"] sampleConfig = .ok paths ∧
        ["lib", "d.rb"] ∈ paths ∧ ["lib", "c.rb"] ∉ paths := by
  have hdisk : sampleDisk.root.isWellFormed = true := by decide
  have hroot : sampleDisk.locate ["project"] = .ok (.directory sampleProject) :=
    FileSystem.locate_of_at? hdisk rfl nofun
  have hwf : (Entry.directory sampleProject).isWellFormed = true := by decide
  have hread : ∀ dir, HasIgnoreFile sampleDisk ["project"] dir →
      sampleReader dir = .ok fun path => .ok (sampleIgnored dir path) := fun _ _ => rfl
  have hshort : ∀ dir,
      IsConsulted sampleDisk ["project"] sampleConfig sampleIgnored sampleProject dir →
        sampleDisk.locate (["project"] ++ dir ++ [ignoreFileName]) ≠ .error .nameTooLong := by
    intro dir hdir
    obtain ⟨inner, hinner⟩ := hdir.isDirectory
    have hfound : ∀ {path : Path} {contents : Option (List UInt8)},
        sampleDisk.locate path = .ok (.file contents) →
          sampleDisk.locate path ≠ .error .nameTooLong := by
      intro path contents hfile hlong
      cases hfile.symm.trans hlong
    rcases directory_sampleProject hinner with rfl | rfl | rfl
    · exact hfound (FileSystem.locate_of_at? hdisk rfl nofun)
    · exact hfound (FileSystem.locate_of_at? hdisk rfl nofun)
    · exact absurd rfl (hdir.visible ".cache" List.mem_cons_self)
  obtain ⟨found, -, hdiscover, -, htaken⟩ := discover_eq_filter hroot hwf hread hshort
  refine ⟨hroot, hwf, sortPaths found, hdiscover, (htaken _).2 ?_, fun hmem => ?_⟩
  · refine ⟨⟨some [], rfl⟩, by decide, ?_, ⟨"*.rb", by decide, by decide +kernel⟩, by decide⟩
    intro way _ hway dir _ _
    unfold sampleIgnored
    rw [List.contains_eq_mem, decide_eq_false_iff_not]
    intro hname
    -- the ignored names are not on the path at all
    have hpath : ∀ name, name ∈ way.drop dir.length → name = "lib" ∨ name = "d.rb" := by
      intro name hname
      simpa using hway.subset (List.mem_of_mem_drop hname)
    have hnames := hpath _ hname
    split at hnames <;> revert hnames <;> decide
  · have hfile : HasIgnoreFile sampleDisk ["project"] ["lib"] :=
      ⟨_, FileSystem.locate_of_at? hdisk rfl nofun⟩
    have hheeded := ((htaken _).1 hmem).heeded ["lib", "c.rb"] (by decide) (List.prefix_refl _)
      ["lib"] ⟨by decide, by decide, .inr rfl⟩ hfile
    revert hheeded
    decide

/-- A name that no file can have. -/
def longName : String := String.ofList (List.replicate 256 'a')

/-- A project whose ignore file is a link to `longName`. -/
def longLinkProject : List (String × Entry) :=
  [(ignoreFileName, .link [longName]), ("a.rb", .file (some []))]

def longLinkDisk : FileSystem := ⟨.directory longLinkProject⟩

theorem locate_longLinkDisk : longLinkDisk.locate [ignoreFileName] = .error .nameTooLong := by
  have hlong : FileSystem.nameLimit < longName.utf8ByteSize := by decide +kernel
  have hshort : ¬ FileSystem.nameLimit < ignoreFileName.utf8ByteSize := by decide
  have hnames : longName ≠ ".." ∧ ignoreFileName ≠ ".." := by decide +kernel
  simp [longLinkDisk, longLinkProject, FileSystem.locate, FileSystem.linkLimit,
    FileSystem.resolve, Entry.at?, hlong, hshort, hnames]

/-- Not in every tree does discovery give the files that pass the filter: an ignore file that leads
to a name that is too long makes it fail. -/
theorem not_all_discover_eq_filter :
    ¬ ∀ (fs : FileSystem) (root : Path) (config : Config) (entries : List (String × Entry))
      (ignored : Path → Path → Bool) (ignore : IgnoreReader IgnoreError),
      fs.locate root = .ok (.directory entries) → (Entry.directory entries).isWellFormed = true →
        (∀ dir, HasIgnoreFile fs root dir →
          ignore dir = .ok fun path => .ok (ignored dir path)) →
        ∃ paths, discover ignore fs root config = .ok paths ∧
          ∀ path, path ∈ paths ↔ IsTaken fs root config ignored entries path := by
  intro h
  let ignored : Path → Path → Bool := fun _ _ => false
  let ignore : IgnoreReader IgnoreError := fun dir => .ok fun path => .ok (ignored dir path)
  have hroot : longLinkDisk.locate [] = .ok (.directory longLinkProject) :=
    FileSystem.locate_nil longLinkDisk
  have hwf : (Entry.directory longLinkProject).isWellFormed = true := by decide
  obtain ⟨paths, hpaths, -⟩ :=
    h longLinkDisk [] Config.default _ ignored ignore hroot hwf fun _ _ => rfl
  have hasked : longLinkDisk.isFile ([] ++ [] ++ [ignoreFileName]) = .error .nameTooLong :=
    FileSystem.isFile_eq_error_iff.2 ⟨rfl, locate_longLinkDisk⟩
  have hfirst : ignoreTest ignore longLinkDisk [] [] = .error (.lookup .nameTooLong) := by
    rw [ignoreTest, hasked]
  cases hpaths.symm.trans (discover_eq_error hfirst)

end CallAlign
