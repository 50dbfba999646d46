import CallAlign.Proofs.DirectoryRun
import CallAlign.Proofs.VisitedDirectories
import Mathlib.Data.List.Flatten
import Mathlib.Data.List.Sort

/-!
# Narrower configurations

A configuration is narrower than another when it asks for less: fewer include patterns, more exclude
patterns, nested ignore files where the other has them, and not to run where the other does not.
Then a search with it asks more tests of a path, and keeps a path only when the other search keeps
it.  The walks themselves have less in common: a test can take a whole directory out of one of them.

    keeps_of_narrows      : what the narrower search keeps, the other one keeps
    test_of_keeps         : a test from above lets everything stay on the way to what is kept
    discover_sublist      : the narrower configuration takes some of the files of the other one
    run_narrows           : narrowing only removes files and offenses
-/

namespace CallAlign

/-! ## Definitions -/

/-- The first configuration asks for no more than the second one. -/
structure Config.Narrows (config' config : Config) : Prop where
  includes : config'.includes ⊆ config.includes
  excludes : config.excludes ⊆ config'.excludes
  nested : config.nestedGitignore = true → config'.nestedGitignore = true
  enabled : config'.enabled = true → config.enabled = true

/-- The first result has some of the files and offenses of the second one, in their order. -/
structure RunResult.Within (r' r : RunResult) : Prop where
  inspected : r'.inspected.Sublist r.inspected
  skipped : r'.skipped.Sublist r.skipped
  offenses : r'.offenses.Sublist r.offenses

/-! ## Searches -/

section Search

variable {ε : Type} {tests tests' : List (PathTest ε)} {path : Path}

/-- Fewer tests leave less out. -/
theorem leftOut_of_subset (hsub : tests ⊆ tests') (h : leftOut tests' path = .ok false) :
    leftOut tests path = .ok false :=
  leftOut_eq_false_iff.2 fun test htest => leftOut_eq_false_iff.1 h test (hsub htest)

/-- The first search asks for no more than the second one. -/
structure Search.Narrows (s' s : Search ε) : Prop where
  testAt : s'.testAt = s.testAt
  nested : s.nested = true → s'.nested = true
  selects : ∀ path, s'.selects path = true → s.selects path = true

variable {s s' : Search ε} {inherited inherited' : List (PathTest ε)} {here : Path}
variable {entries : List (String × Entry)}

/-- Whatever tests the second search asks below a directory, the first one asks too. -/
theorem Search.Narrows.exists_testsAt (hs : s'.Narrows s) (hsub : inherited ⊆ inherited')
    (h : s'.testsAt inherited' here = .ok tests') :
    ∃ tests, s.testsAt inherited here = .ok tests ∧ tests ⊆ tests' := by
  unfold Search.testsAt at *
  split
  · next hasks =>
    obtain ⟨hnested, hbelow⟩ := Bool.and_eq_true_iff.1 hasks
    rw [if_pos (Bool.and_eq_true_iff.2 ⟨hs.nested hnested, hbelow⟩), hs.testAt] at h
    obtain ⟨own, hown, h⟩ := bind_eq_ok.1 h
    cases h
    refine ⟨inherited ++ own.toList, bind_eq_ok.2 ⟨own, hown, rfl⟩, ?_⟩
    exact List.append_subset.2 ⟨List.subset_append_of_subset_left own.toList hsub,
      List.subset_append_right inherited' own.toList⟩
  · refine ⟨inherited, rfl, ?_⟩
    split at h
    · obtain ⟨own, -, h⟩ := bind_eq_ok.1 h
      cases h
      exact List.subset_append_of_subset_left own.toList hsub
    · cases h
      exact hsub

/-- What the narrower search keeps, the other one keeps. -/
theorem keeps_of_narrows (hs : s'.Narrows s) (h : s'.Keeps inherited' here entries path)
    (hsub : inherited ⊆ inherited') : s.Keeps inherited here entries path := by
  induction h generalizing inherited with
  | file htests' hmem hkeep hselects =>
    obtain ⟨tests, htests, hsub⟩ := hs.exists_testsAt hsub htests'
    exact .file htests hmem (leftOut_of_subset hsub hkeep) (hs.selects _ hselects)
  | directory htests' hmem hopen hkeep _ ih =>
    obtain ⟨tests, htests, hsub⟩ := hs.exists_testsAt hsub htests'
    exact .directory htests hmem hopen (leftOut_of_subset hsub hkeep) (ih hsub)

theorem Search.Keeps.prefix_path (h : s.Keeps inherited here entries path) : here <+: path := by
  induction h with
  | file _ _ _ _ => exact List.prefix_append _ _
  | directory _ _ _ _ _ ih => exact (List.prefix_append _ _).trans ih

/-- A test from above lets everything stay on the way to a path that is kept. -/
theorem test_of_keeps {test : PathTest ε} (h : s.Keeps inherited here entries path)
    (htest : test ∈ inherited) {next : String} {rest : Path}
    (hway : here ++ next :: rest <+: path) : test (here ++ next :: rest) = .ok false := by
  induction h generalizing next rest with
  | file htests _ hkeep _ =>
    have hstep := (List.prefix_append_right_inj _).1 hway
    obtain ⟨rfl, hrest⟩ := List.cons_prefix_cons.1 hstep
    rw [List.prefix_nil.1 hrest]
    exact leftOut_eq_false_iff.1 hkeep test (subset_of_testsAt htests htest)
  | @directory inherited tests here _ _ name path htests _ _ hkeep hbelow ih =>
    have htest := subset_of_testsAt htests htest
    obtain ⟨tail, rfl⟩ := hbelow.prefix_path
    rw [List.append_assoc] at hway
    obtain ⟨rfl, hrest⟩ := List.cons_prefix_cons.1 ((List.prefix_append_right_inj here).1 hway)
    cases rest with
    | nil => exact leftOut_eq_false_iff.1 hkeep test htest
    | cons next' rest =>
      rw [List.append_cons here next (next' :: rest)]
      exact ih htest ((List.prefix_append_right_inj _).2 hrest)

end Search

/-! ## Discovery -/

theorem Config.Narrows.search {ε : Type} {config config' : Config} (h : config'.Narrows config)
    (testAt : Path → Except ε (Option (PathTest ε))) :
    (config'.search testAt).Narrows (config.search testAt) where
  testAt := rfl
  nested := h.nested
  selects path hselects := by
    obtain ⟨⟨glob, hglob, hmatch⟩, hexcluded⟩ := (selects_iff config' path).1 hselects
    exact (selects_iff config path).2
      ⟨⟨glob, h.includes hglob, hmatch⟩, fun glob hglob => hexcluded glob (h.excludes hglob)⟩

/-- Of two lists in strictly increasing order of their texts, the one with fewer paths is part of
the other. -/
theorem sublist_of_increasing {files files' : List Path} (hsub : files' ⊆ files)
    (hfiles : files.Pairwise fun p q => p.relativeText < q.relativeText)
    (hfiles' : files'.Pairwise fun p q => p.relativeText < q.relativeText) :
    files'.Sublist files := by
  have hantisymm : Std.Antisymm fun p q : Path => p.relativeText < q.relativeText :=
    ⟨fun p q hpq hqp => absurd hqp (String.lt_asymm hpq)⟩
  have hnodup : files'.Nodup := (List.pairwise_map.2 hfiles').nodup.of_map
  exact List.sublist_of_subperm_of_pairwise (List.subperm_of_subset hnodup hsub) hfiles' hfiles

section Discover

variable {ε : Type} {ignore : IgnoreReader ε} {fs : FileSystem} {root : Path}
variable {config config' : Config} {files files' : List Path}

/-- What is discovered, in a directory or elsewhere. -/
theorem discover_cases (hwf : fs.root.isWellFormed = true)
    (h : discover ignore fs root config = .ok files) :
    files = [] ∧ (∀ entries, fs.locate root ≠ .ok (.directory entries)) ∨
      ∃ entries first, fs.locate root = .ok (.directory entries) ∧
        ignoreTest ignore fs root [] = .ok first ∧
        (files.Pairwise fun p q => p.relativeText < q.relativeText) ∧
        ∀ path, path ∈ files ↔ (config.search (ignoreTest ignore fs root)).Keeps
          first.toList [] entries path := by
  by_cases hroot : ∃ entries, fs.locate root = .ok (.directory entries)
  · obtain ⟨entries, hroot⟩ := hroot
    obtain ⟨first, hspec⟩ :=
      discover_ok hroot (FileSystem.isWellFormed_of_locate hwf hroot) h
    exact .inr ⟨entries, first, hroot, hspec⟩
  · refine .inl ⟨?_, fun entries hentries => hroot ⟨entries, hentries⟩⟩
    unfold discover at h
    dsimp only at h
    split at h
    · next entries hentries => exact absurd ⟨entries, hentries⟩ hroot
    · cases htest : ignoreTest ignore fs root [] with
      | error e =>
        rw [htest] at h
        cases h
      | ok first =>
        rw [htest] at h
        cases h
        rfl

theorem pairwise_discover (hwf : fs.root.isWellFormed = true)
    (h : discover ignore fs root config = .ok files) :
    files.Pairwise fun p q => p.relativeText < q.relativeText := by
  rcases discover_cases hwf h with ⟨rfl, -⟩ | ⟨_, _, -, -, hincreasing, -⟩
  · exact List.Pairwise.nil
  · exact hincreasing

theorem discover_sublist (hwf : fs.root.isWellFormed = true) (hnarrows : config'.Narrows config)
    (h : discover ignore fs root config = .ok files)
    (h' : discover ignore fs root config' = .ok files') : files'.Sublist files := by
  refine sublist_of_increasing ?_ (pairwise_discover hwf h) (pairwise_discover hwf h')
  rcases discover_cases hwf h' with ⟨rfl, -⟩ | ⟨entries, first, hroot, hfirst, -, hkeeps'⟩
  · exact List.nil_subset _
  rcases discover_cases hwf h with ⟨-, hno⟩ | ⟨_, _, hroot', hfirst', -, hkeeps⟩
  · exact absurd hroot (hno entries)
  cases hroot.symm.trans hroot'
  cases hfirst.symm.trans hfirst'
  intro path hpath
  have hkeep := (hkeeps' path).1 hpath
  exact (hkeeps path).2 (keeps_of_narrows (hnarrows.search _) hkeep (List.Subset.refl _))

/-- What the ignore file of the directory leaves out is not discovered, nor is what lies below
it. -/
theorem notMem_discover_of_ignored {entries : List (String × Entry)}
    {test : PathTest (SearchError ε)} {way path : Path} (hwf : fs.root.isWellFormed = true)
    (h : discover ignore fs root config = .ok files)
    (hroot : fs.locate root = .ok (.directory entries))
    (htest : ignoreTest ignore fs root [] = .ok (some test)) (hne : way ≠ [])
    (hway : way <+: path) (hout : test way = .ok true) : path ∉ files := by
  intro hpath
  rcases discover_cases hwf h with ⟨-, hno⟩ | ⟨_, first, -, hfirst, -, hkeeps⟩
  · exact hno entries hroot
  cases htest.symm.trans hfirst
  obtain ⟨next, rest, rfl⟩ := List.exists_cons_of_ne_nil hne
  have hstays := test_of_keeps ((hkeeps path).1 hpath) (List.mem_singleton_self test)
    (List.nil_append path ▸ hway)
  cases hout.symm.trans hstays

theorem legal_of_mem_discover (hwf : fs.root.isWellFormed = true)
    (h : discover ignore fs root config = .ok files) {file : Path} (hfile : file ∈ files) :
    file ≠ [] ∧ ∀ name ∈ file, isLegalName name = true := by
  rcases discover_cases hwf h with ⟨rfl, -⟩ | ⟨entries, first, hroot, -, -, hkeeps⟩
  · cases hfile
  have hentries := FileSystem.isWellFormed_of_locate hwf hroot
  obtain ⟨name, rest, contents, rfl, hat⟩ := ((hkeeps file).1 hfile).exists_file hentries
  exact ⟨List.cons_ne_nil name rest, (Entry.isWellFormed_of_at? hentries hat).2⟩

end Discover

/-! ## Reports -/

section Reports

variable {ε : Type} {ignore : IgnoreReader ε} {parse : Parser} {fs : FileSystem} {root : Path}
variable {config config' : Config} {jobs jobs' : Int} {all all' : List FileReport}

/-- What a run reports on: a file by itself, or what is discovered. -/
theorem reports_cases (h : reports ignore parse fs root config jobs = .ok all) :
    fs.isFile root = .ok true ∧ all = [inspectFile parse fs root (root.getLastD "")] ∨
      fs.isFile root = .ok false ∧ ∃ files, discover ignore fs root config = .ok files ∧
        all = fileReports parse fs root files := by
  obtain ⟨files, htargets, rfl⟩ := reports_eq_ok h
  unfold targets at htargets
  split at htargets
  · cases htargets
  · next hfile =>
    cases htargets
    exact .inl ⟨hfile, rfl⟩
  · next hfile =>
    obtain ⟨paths, hdiscover, htargets⟩ := bind_eq_ok.1 htargets
    cases htargets
    exact .inr ⟨hfile, paths, hdiscover, List.map_map⟩

/-- The reports of a run have their offenses in order. -/
theorem pairwise_offenses_reports (hwf : fs.root.isWellFormed = true)
    (h : reports ignore parse fs root config jobs = .ok all) :
    (all.flatMap FileReport.offenses).Pairwise fun a b => a.reportLE b = true := by
  rcases reports_cases h with ⟨-, rfl⟩ | ⟨-, files, hdiscover, rfl⟩
  · rw [List.flatMap_singleton]
    exact pairwise_offenses parse fs root _
  · exact pairwise_offenses_fileReports parse fs root
      (List.pairwise_map.2 (pairwise_discover hwf hdiscover))

theorem reports_sublist (hwf : fs.root.isWellFormed = true) (hnarrows : config'.Narrows config)
    (h : reports ignore parse fs root config jobs = .ok all)
    (h' : reports ignore parse fs root config' jobs' = .ok all') : all'.Sublist all := by
  rcases reports_cases h with ⟨hroot, rfl⟩ | ⟨hroot, files, hfiles, rfl⟩
  · -- a file by itself is inspected whatever the patterns
    cases (reports_file ignore parse config' hroot jobs').symm.trans h'
    exact List.Sublist.refl _
  · rcases reports_cases h' with ⟨hroot', -⟩ | ⟨-, files', hfiles', rfl⟩
    · cases hroot.symm.trans hroot'
    · exact (discover_sublist hwf hnarrows hfiles hfiles').map _

end Reports

/-- Fewer reports make a smaller result. -/
theorem RunResult.within_ofReports {all all' : List FileReport} (hsub : all'.Sublist all)
    (hsorted : (all.flatMap FileReport.offenses).Pairwise fun a b => a.reportLE b = true) :
    (RunResult.ofReports all').Within (.ofReports all) where
  inspected := (hsub.filter _).map _
  skipped := (hsub.filter _).map _
  offenses := by
    have hoffenses := hsub.flatMap FileReport.offenses
    rw [ofReports, ofReports, sortReport_eq_self hsorted,
      sortReport_eq_self (hsorted.sublist hoffenses)]
    exact hoffenses

/-! ## Runs -/

section Runs

variable {ε : Type} {ignore : IgnoreReader ε} {parse : Parser} {fs : FileSystem} {root : Path}
variable {config config' : Config} {jobs jobs' : Int} {r r' : Run}

theorem run_within (hwf : fs.root.isWellFormed = true) (hnarrows : config'.Narrows config)
    (hrun : run ignore parse fs root config jobs = .ok r)
    (hrun' : run ignore parse fs root config' jobs' = .ok r') : r'.result.Within r.result := by
  rcases run_cases hrun' with ⟨-, hempty⟩ | ⟨henabled', all', hall', hresult'⟩
  · rw [hempty]
    exact ⟨List.nil_sublist _, List.nil_sublist _, List.nil_sublist _⟩
  rcases run_cases hrun with ⟨hdisabled, -⟩ | ⟨-, all, hall, hresult⟩
  · cases hdisabled.symm.trans (hnarrows.enabled henabled')
  · rw [hresult, hresult']
    exact RunResult.within_ofReports (reports_sublist hwf hnarrows hall hall')
      (pairwise_offenses_reports hwf hall)

/-- A run has no file that the ignore file of the directory leaves out, or that lies below what it
leaves out. -/
theorem notMem_run_of_ignored {entries : List (String × Entry)} {test : PathTest (SearchError ε)}
    {way path : Path} {e : Entry} (hwf : fs.root.isWellFormed = true)
    (hrun : run ignore parse fs root config jobs = .ok r)
    (hroot : fs.locate root = .ok (.directory entries))
    (htest : ignoreTest ignore fs root [] = .ok (some test))
    (hat : (Entry.directory entries).at? path = some e) (hne : way ≠ []) (hway : way <+: path)
    (hout : test way = .ok true) :
    path.relativeText ∉ r.result.inspected ∧ path.relativeText ∉ r.result.skipped := by
  rcases run_cases hrun with ⟨-, hempty⟩ | ⟨-, all, hall, hresult⟩
  · rw [hempty]
    exact ⟨List.not_mem_nil, List.not_mem_nil⟩
  rcases reports_cases hall with ⟨hfile, -⟩ | ⟨-, files, hfiles, rfl⟩
  · cases hfile.symm.trans (FileSystem.isFile_of_directory hroot)
  have habsent : path.relativeText ∉ files.map Path.relativeText := by
    -- the text of a path tells the path, because its names are legal
    intro hmem
    obtain ⟨file, hfile, htext⟩ := List.mem_map.1 hmem
    obtain ⟨hfileNe, hlegal⟩ := legal_of_mem_discover hwf hfiles hfile
    have hentries := FileSystem.isWellFormed_of_locate hwf hroot
    have hpathNe : path ≠ [] := fun heq => hne (List.prefix_nil.1 (heq ▸ hway))
    have heq : file = path := relativeText_injective hfileNe hpathNe hlegal
      (Entry.isWellFormed_of_at? hentries hat).2 htext
    exact notMem_discover_of_ignored hwf hfiles hroot htest hne hway hout (heq ▸ hfile)
  rw [hresult]
  exact ⟨fun h => habsent ((sublist_fileReports parse fs root _).subset h),
    fun h => habsent ((sublist_fileReports parse fs root _).subset h)⟩

end Runs

/-! ## Top theorem -/

/-- Narrowing a configuration only removes: the narrower run has some of the inspected and skipped
files and of the offenses of the other one, in their order.  Whatever the ignore files further down
say, it has no file that the ignore file of the directory leaves out, or that lies below what it
leaves out. -/
theorem run_narrows {ε : Type} {ignore : IgnoreReader ε} {parse : Parser} {fs : FileSystem}
    {root : Path} {config config' : Config} {jobs jobs' : Int} {r r' : Run}
    (hwf : fs.root.isWellFormed = true) (hnarrows : config'.Narrows config)
    (hrun : run ignore parse fs root config jobs = .ok r)
    (hrun' : run ignore parse fs root config' jobs' = .ok r') :
    r'.result.Within r.result ∧
      ∀ entries test, fs.locate root = .ok (.directory entries) →
        ignoreTest ignore fs root [] = .ok (some test) →
        ∀ path e, (Entry.directory entries).at? path = some e →
          ∀ way, way ≠ [] → way <+: path → test way = .ok true →
            path.relativeText ∉ r'.result.inspected ∧ path.relativeText ∉ r'.result.skipped := by
  refine ⟨run_within hwf hnarrows hrun hrun', ?_⟩
  intro entries test hroot htest path e hat way hne hway hout
  exact notMem_run_of_ignored hwf hrun' hroot htest hat hne hway hout

/-! ## A project that takes back in -/

/-- The rule of a line, by what its pattern comes to. -/
theorem IgnoreRule.ofLine_eq_ok {line cs text : List Char} {negated : Bool}
    (hline : (Text.allBlank line || decide (line.head? = some '#')) = false)
    (hnegated : (line.head? == some '!') = negated)
    (hcs : IgnorePattern.shortenStars true 0 (if negated then line.tail else line) = cs)
    (hroot : Text.trimEndBy Text.isBlank cs ≠ ['/'])
    (htext : (IgnorePattern.ofText? cs).bind (·.regexText? negated) = some text) :
    IgnoreRule.ofLine line = .ok (some { negated, expression := Regex.ofText? text }) := by
  subst hnegated hcs
  unfold ofLine
  rw [if_neg (by simp [hline])]
  dsimp only
  rw [if_neg hroot, htext]

/-- An ignore file that leaves out what is named `b.rb`, or takes it back in. -/
def namedBytes (negated : Bool) : List UInt8 :=
  if negated then "!b.rb\n".toUTF8.toList else "b.rb\n".toUTF8.toList

def namedRule (negated : Bool) : IgnoreRule :=
  { negated, expression := Regex.ofText? "(^|[/])b\\.rb$".toList }

theorem ofBytes_namedBytes (negated : Bool) :
    IgnoreRules.ofBytes (namedBytes negated) = .ok [namedRule negated] := by
  let line := if negated then "!b.rb".toList else "b.rb".toList
  have hdecode : Utf8.decode? (namedBytes negated) = some (line ++ ['\n']) := by
    cases negated <;> decide +kernel
  have hsplit : splitLines (line ++ ['\n']) = [line, []] := by cases negated <;> decide
  have hcs : IgnorePattern.shortenStars true 0 (if negated then line.tail else line) =
      "b.rb".toList := by
    cases negated <;> decide
  have htext : (IgnorePattern.ofText? "b.rb".toList).bind (·.regexText? negated) =
      some "(^|[/])b\\.rb$".toList := by
    cases negated <;> decide +kernel
  have hline : IgnoreRule.ofLine line = .ok (some (namedRule negated)) :=
    IgnoreRule.ofLine_eq_ok (by cases negated <;> decide) (by cases negated <;> decide) hcs
      (by decide) htext
  rw [IgnoreRules.ofBytes, hdecode]
  dsimp only
  rw [hsplit, IgnoreRules.ofLines, hline]
  rfl

/-- The test of such a file in a directory. -/
def namedTest (negated : Bool) (dir : Path) : PathTest IgnoreError := fun path =>
  IgnoreRules.ignores [namedRule negated] (Path.relativeText (path.drop dir.length)).toList

theorem ignoreTest_eq_namedTest {fs : FileSystem} {root dir : Path} {negated : Bool}
    (hread : fs.read (root ++ dir ++ [ignoreFileName]) = .ok (namedBytes negated)) :
    ignoreTest (parseIgnoreFile fs root) fs root dir =
      .ok (some (namedTest negated dir).lift) := by
  have hparse : parseIgnoreFile fs root dir = .ok (namedTest negated dir) := by
    rw [parseIgnoreFile, hread]
    exact bind_eq_ok.2 ⟨_, ofBytes_namedBytes negated, rfl⟩
  exact ignoreTest_eq_some_iff.2 ⟨⟨_, FileSystem.read_eq_ok_iff.1 hread⟩, _, hparse, rfl⟩

def negatingLibrary : List (String × Entry) :=
  [(".gitignore", .file (some (namedBytes true))), ("b.rb", .file (some [])),
    ("c.rb", .file (some []))]

/-- A project whose ignore file leaves out `b.rb`, with a directory that takes it back in. -/
def negatingProject : List (String × Entry) :=
  [(".gitignore", .file (some (namedBytes false))), ("a.rb", .file (some [])),
    ("lib", .directory negatingLibrary)]

def negatingDisk : FileSystem := ⟨.directory negatingProject⟩

theorem isWellFormed_negatingDisk : negatingDisk.root.isWellFormed = true := by decide

def negatingReader : IgnoreReader IgnoreError := parseIgnoreFile negatingDisk []

/-- The test of the project. -/
def projectTest : PathTest (SearchError IgnoreError) := (namedTest false []).lift

/-- The test of `lib`. -/
def libraryTest : PathTest (SearchError IgnoreError) := (namedTest true ["lib"]).lift

/-- The tests below `lib`, by whether nested ignore files count. -/
def libraryTests (nested : Bool) : List (PathTest (SearchError IgnoreError)) :=
  [projectTest] ++ if nested then [libraryTest] else []

theorem remaining_negatingLibrary (nested : Bool) :
    remaining (libraryTests nested) ["lib"] (negatingLibrary.filter (·.2.isFile)) =
      .ok [(".gitignore", .file (some (namedBytes true))), ("c.rb", .file (some []))] := by
  cases nested <;> rfl

section

variable {s : Search (SearchError IgnoreError)}

theorem visit_negatingProject :
    s.visit [projectTest] [] negatingProject =
      .ok ⟨[projectTest], [("lib", negatingLibrary)],
        s.selected [] (negatingProject.take 2)⟩ := by
  have htests : s.testsAt [projectTest] [] = .ok [projectTest] := by
    simp [Search.testsAt]
  have hdirs : remaining [projectTest] [] (sortByName (openDirectories negatingProject)) =
      .ok [("lib", negatingLibrary)] := by
    have hsort : sortByName (openDirectories negatingProject) = [("lib", negatingLibrary)] :=
      List.mergeSort_singleton _
    rw [hsort]
    rfl
  have hfiles : remaining [projectTest] [] (negatingProject.filter (·.2.isFile)) =
      .ok (negatingProject.take 2) := rfl
  exact bind_eq_ok.2 ⟨_, htests, bind_eq_ok.2 ⟨_, hdirs, bind_eq_ok.2 ⟨_, hfiles, rfl⟩⟩⟩

theorem visit_negatingLibrary (hlib : s.testAt ["lib"] = .ok (some libraryTest)) :
    ∃ files, s.visit [projectTest] ["lib"] negatingLibrary =
      .ok ⟨libraryTests s.nested, [], files⟩ := by
  have htests : s.testsAt [projectTest] ["lib"] = .ok (libraryTests s.nested) := by
    rw [Search.testsAt, hlib]
    cases s.nested <;> rfl
  have hdirs : remaining (libraryTests s.nested) ["lib"]
      (sortByName (openDirectories negatingLibrary)) = .ok [] := by
    have hsort : sortByName (openDirectories negatingLibrary) = [] := List.mergeSort_nil
    rw [hsort]
    rfl
  exact ⟨_, bind_eq_ok.2 ⟨_, htests, bind_eq_ok.2 ⟨_, hdirs,
    bind_eq_ok.2 ⟨_, remaining_negatingLibrary s.nested, rfl⟩⟩⟩⟩

end

/-- Whatever it asks, a search of the project ends. -/
theorem exists_discover_negatingProject (config : Config) :
    ∃ files, discover negatingReader negatingDisk [] config = .ok files := by
  let s := config.search (ignoreTest negatingReader negatingDisk [])
  have hfirst : s.testAt [] = .ok (some projectTest) :=
    ignoreTest_eq_namedTest (FileSystem.read_of_at? isWellFormed_negatingDisk rfl)
  have hlib : s.testAt ["lib"] = .ok (some libraryTest) :=
    ignoreTest_eq_namedTest (FileSystem.read_of_at? isWellFormed_negatingDisk rfl)
  obtain ⟨files, hinner⟩ := visit_negatingLibrary hlib
  have hwalk : s.walk negatingProject =
      .ok (some (s.selected [] (negatingProject.take 2) ++ files)) := by
    rw [Search.walk, hfirst]
    show s.walkFrom [([], negatingProject)] [([], [projectTest])] = _
    simp [visit_negatingProject, hinner, Visit.pending, Visit.table, Search.walkFrom_cons,
      Search.walkFrom_nil, bind, Except.bind, pure, Except.pure]
  have hroot : negatingDisk.locate [] = .ok (.directory negatingProject) := FileSystem.locate_nil _
  rw [discover, hroot]
  exact ⟨_, bind_eq_ok.2 ⟨_, hwalk, rfl⟩⟩

/-- Fewer files than by default, and nested ignore files. -/
def narrowConfig : Config :=
  { Config.default with excludes := ["a.rb"], nestedGitignore := true }

/-- The ignore file of `lib` asks for `lib/b.rb`, which the one of the project leaves out, and does
not get it. -/
theorem run_narrows_negatingProject :
    negatingDisk.root.isWellFormed = true ∧ narrowConfig.Narrows Config.default ∧
      ∃ r r', run negatingReader mixedParser negatingDisk [] Config.default 1 = .ok r ∧
        run negatingReader mixedParser negatingDisk [] narrowConfig 2 = .ok r' ∧
        r'.result.Within r.result ∧ "lib/b.rb" ∉ r'.result.inspected := by
  have hwf := isWellFormed_negatingDisk
  have hnarrows : narrowConfig.Narrows Config.default :=
    ⟨by decide, by decide, by decide, by decide⟩
  have hroot : negatingDisk.locate [] = .ok (.directory negatingProject) := FileSystem.locate_nil _
  obtain ⟨files, hfiles⟩ := exists_discover_negatingProject Config.default
  obtain ⟨files', hfiles'⟩ := exists_discover_negatingProject narrowConfig
  have hrun := run_eq_ok rfl (reports_directory mixedParser hroot hfiles 1)
  have hrun' := run_eq_ok rfl (reports_directory mixedParser hroot hfiles' 2)
  obtain ⟨hwithin, hignored⟩ := run_narrows hwf hnarrows hrun hrun'
  have hout : projectTest ["lib", "b.rb"] = .ok true := rfl
  have hat : (Entry.directory negatingProject).at? ["lib", "b.rb"] = some (.file (some [])) := rfl
  have habsent := hignored negatingProject projectTest hroot
    (ignoreTest_eq_namedTest (FileSystem.read_of_at? hwf rfl)) _ _ hat ["lib", "b.rb"] (by decide)
    (List.prefix_refl _) hout
  exact ⟨hwf, hnarrows, _, _, hrun, hrun', hwithin, habsent.1⟩

end CallAlign
