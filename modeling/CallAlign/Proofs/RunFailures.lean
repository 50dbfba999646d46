import CallAlign.Proofs.NarrowedRun
import CallAlign.Proofs.StrictDecoding
import CallAlign.Proofs.ValidConfig

/-!
# Runs that fail

A run of a directory ends with a result, in which every file that was discovered is inspected or
skipped, or an ignore file makes it fail: it is a link to a name that is too long, it cannot be
loaded, or its test fails (`IgnoreFault`).  Nothing else in the tree does, whatever its files hold
and however ignore files are read.

Ignore files that are read as rules are at fault when they cannot be read, when they are no UTF-8,
or when they have a line which makes no rule or a rule which cannot be asked (`RulesFault`).

    ignoreTest_eq_error_iff      : the ignore files that make no test
    exists_fault_of_discover     : a search fails for an ignore file
    parseIgnoreFile_eq_error_iff : the ignore files that make no rules
    rulesFault_of_ask            : the ignore files whose rules cannot be asked
    partitions_fileReports       : each file of a run is inspected or skipped
    run_completes                : a run has a result, or an ignore file that is at fault
-/

namespace CallAlign

/-! ## Definitions -/

/-- The ignore file of a directory makes no test: it is a link to a name that is too long, or it
cannot be loaded. -/
inductive LoadFault {ε : Type} (ignore : IgnoreReader ε) (fs : FileSystem) (root dir : Path) :
    SearchError ε → Prop where
  | lookup : fs.locate (root ++ dir ++ [ignoreFileName]) = .error .nameTooLong →
      LoadFault ignore fs root dir (.lookup .nameTooLong)
  | ignoreFile {e : ε} : HasIgnoreFile fs root dir → ignore dir = .error e →
      LoadFault ignore fs root dir (.ignoreFile e)

/-- What is wrong with the ignore file of a directory, by the error that it makes: it makes no test,
or its test fails for a path of the tree. -/
inductive IgnoreFault {ε : Type} (ignore : IgnoreReader ε) (fs : FileSystem) (root : Path)
    (entries : List (String × Entry)) (dir : Path) : SearchError ε → Prop where
  | load {e : SearchError ε} : LoadFault ignore fs root dir e →
      IgnoreFault ignore fs root entries dir e
  | ask {test : PathTest ε} {path : Path} {found : Entry} {e : ε} : HasIgnoreFile fs root dir →
      ignore dir = .ok test → (Entry.directory entries).at? path = some found →
      test path = .error e → IgnoreFault ignore fs root entries dir (.ignoreFile e)

/-- What is wrong with an ignore file that is read as rules. -/
inductive RulesFault (fs : FileSystem) (file : Path) : IgnoreError → Prop where
  | unreadable : fs.locate file = .ok (.file none) → RulesFault fs file .unreadable
  | notUtf8 {bytes : List UInt8} : fs.read file = .ok bytes → (∀ text, bytes ≠ Utf8.encode text) →
      RulesFault fs file .notUtf8
  | incomplete {text line : List Char} : fs.read file = .ok (Utf8.encode text) →
      line ∈ splitLines text → IgnoreRule.ofLine line = .error .incomplete →
      RulesFault fs file .incomplete
  | malformedSet {text line : List Char} {rule : IgnoreRule} :
      fs.read file = .ok (Utf8.encode text) → line ∈ splitLines text →
      IgnoreRule.ofLine line = .ok (some rule) → rule.expression = none →
      RulesFault fs file .malformedSet

/-- A directory whose ignore file a run looks for: the one that is searched, or with nested ignore
files any directory that is reached. -/
def Consulted (nested : Bool) (entries : List (String × Entry)) (dir : Path) : Prop :=
  (∃ inner, Reached entries dir inner) ∧ (dir = [] ∨ nested = true)

/-- Each of some files is inspected or skipped, and none is both. -/
structure RunResult.Partitions (r : RunResult) (files : List Path) (skips : Path → Prop) :
    Prop where
  nodup : (files.map Path.relativeText).Nodup
  perm : (r.inspected ++ r.skipped).Perm (files.map Path.relativeText)
  skipped_iff : ∀ file ∈ files, file.relativeText ∈ r.skipped ↔ skips file

/-! ## Ignore files -/

theorem IgnoreRule.eq_incomplete_of_ofLine {line : List Char} {e : IgnoreError}
    (h : ofLine line = .error e) : e = .incomplete := by
  unfold ofLine at h
  split at h
  · cases h
  · dsimp only at h
    generalize IgnorePattern.shortenStars true 0 _ = cs at h
    split at h
    · cases h
    · split at h
      · cases h
        rfl
      · cases h

namespace IgnoreRules

theorem ofLines_eq_error_iff {lines : List (List Char)} {e : IgnoreError} :
    ofLines lines = .error e ↔
      e = .incomplete ∧ ∃ line ∈ lines, IgnoreRule.ofLine line = .error .incomplete := by
  induction lines with
  | nil => simp [ofLines]
  | cons line lines ih =>
    rw [ofLines, bind_eq_error, List.exists_mem_cons_iff]
    cases hline : IgnoreRule.ofLine line with
    | error e' =>
      obtain rfl := IgnoreRule.eq_incomplete_of_ofLine hline
      simp [eq_comm]
    | ok rule =>
      have hrest : (∃ a, (Except.ok rule : Except IgnoreError _) = .ok a ∧ (do
          let rules ← ofLines lines
          return a.toList ++ rules) = .error e) ↔ ofLines lines = .error e := by
        simp [bind_eq_error, pure, Except.pure]
      rw [hrest, ih]
      simp

/-- A rule is that of a line. -/
theorem exists_line_of_mem {lines : List (List Char)} {rules : List IgnoreRule}
    (h : ofLines lines = .ok rules) {rule : IgnoreRule} (hrule : rule ∈ rules) :
    ∃ line ∈ lines, IgnoreRule.ofLine line = .ok (some rule) := by
  induction lines generalizing rules with
  | nil => cases h; cases hrule
  | cons line lines ih =>
    obtain ⟨first, hfirst, h⟩ := bind_eq_ok.1 h
    obtain ⟨others, hothers, h⟩ := bind_eq_ok.1 h
    cases h
    rcases List.mem_append.1 hrule with hrule | hrule
    · obtain rfl := Option.mem_toList.1 hrule
      exact ⟨line, List.mem_cons_self, hfirst⟩
    · obtain ⟨line', hmem, hline'⟩ := ih hothers hrule
      exact ⟨line', .tail _ hmem, hline'⟩

theorem mem_checkOrder {rules : List IgnoreRule} {rule : IgnoreRule} :
    rule ∈ checkOrder rules ↔ rule ∈ rules := by
  unfold checkOrder
  split
  · exact List.mem_reverse
  · exact Iff.rfl

/-- Only a malformed rule cannot be asked. -/
theorem exists_malformed_of_firstDecides {rules : List IgnoreRule} {path : List Char}
    {e : IgnoreError} (h : firstDecides rules path = .error e) :
    e = .malformedSet ∧ ∃ rule ∈ rules, rule.expression = none := by
  induction rules with
  | nil => cases h
  | cons rule rules ih =>
    rcases bind_eq_error.1 h with hholds | ⟨matched, -, h⟩
    · unfold IgnoreRule.holds at hholds
      split at hholds
      · cases hholds
      · next hnone =>
        cases hholds
        exact ⟨rfl, rule, List.mem_cons_self, hnone⟩
    · cases matched with
      | true => cases h
      | false =>
        obtain ⟨he, bad, hbad, hnone⟩ := ih h
        exact ⟨he, bad, .tail _ hbad, hnone⟩

end IgnoreRules

section Rules

variable {fs : FileSystem} {root dir file : Path} {e : IgnoreError}

/-- The faults that reading the rules of a file meets. -/
theorem ofBytes_eq_error_iff {bytes : List UInt8} (h : fs.read file = .ok bytes) :
    IgnoreRules.ofBytes bytes = .error e ↔ RulesFault fs file e ∧ e ≠ .malformedSet := by
  constructor
  · intro herror
    unfold IgnoreRules.ofBytes at herror
    split at herror
    · next text htext =>
      obtain rfl := Utf8.decode?_eq_some_iff.1 htext
      obtain ⟨rfl, line, hline, hbad⟩ := IgnoreRules.ofLines_eq_error_iff.1 herror
      exact ⟨.incomplete h hline hbad, by simp⟩
    · next hnone =>
      cases herror
      exact ⟨.notUtf8 h (Utf8.decode?_eq_none_iff.1 hnone), by simp⟩
  · rintro ⟨hfault, hload⟩
    cases hfault with
    | unreadable hnone => cases hnone.symm.trans (FileSystem.read_eq_ok_iff.1 h)
    | notUtf8 hread hno =>
      cases h.symm.trans hread
      rw [IgnoreRules.ofBytes, Utf8.decode?_eq_none_iff.2 hno]
    | incomplete hread hline hbad =>
      cases h.symm.trans hread
      rw [IgnoreRules.ofBytes, Utf8.decode?_encode]
      exact IgnoreRules.ofLines_eq_error_iff.2 ⟨rfl, _, hline, hbad⟩
    | malformedSet => exact absurd rfl hload

/-- The ignore files that make no rules. -/
theorem parseIgnoreFile_eq_error_iff (hfile : HasIgnoreFile fs root dir) :
    parseIgnoreFile fs root dir = .error e ↔
      RulesFault fs (root ++ dir ++ [ignoreFileName]) e ∧ e ≠ .malformedSet := by
  obtain ⟨contents, hcontents⟩ := hfile
  unfold parseIgnoreFile
  generalize root ++ dir ++ [ignoreFileName] = file at *
  cases contents with
  | none =>
    have hread : fs.read file = .error .denied := by rw [FileSystem.read, hcontents]
    rw [hread]
    constructor
    · intro h
      cases h
      exact ⟨.unreadable hcontents, by simp⟩
    · rintro ⟨hfault, -⟩
      cases hfault with
      | unreadable => rfl
      | notUtf8 hbytes => cases hread.symm.trans hbytes
      | incomplete hbytes => cases hread.symm.trans hbytes
      | malformedSet hbytes => cases hread.symm.trans hbytes
  | some bytes =>
    have hread := FileSystem.read_eq_ok_iff.2 hcontents
    rw [hread, ← ofBytes_eq_error_iff hread]
    simp [bind_eq_error, pure, Except.pure]

/-- Rules that cannot be asked are those of an ignore file with a malformed one. -/
theorem rulesFault_of_ask {test : PathTest IgnoreError} {path : Path}
    (h : parseIgnoreFile fs root dir = .ok test) (hask : test path = .error e) :
    RulesFault fs (root ++ dir ++ [ignoreFileName]) e := by
  unfold parseIgnoreFile at h
  generalize root ++ dir ++ [ignoreFileName] = file at h ⊢
  split at h
  · cases h
  · next bytes hread =>
    obtain ⟨rules, hrules, h⟩ := bind_eq_ok.1 h
    cases h
    obtain ⟨rfl, rule, hrule, hnone⟩ := IgnoreRules.exists_malformed_of_firstDecides hask
    have hrule := IgnoreRules.mem_checkOrder.1 hrule
    unfold IgnoreRules.ofBytes at hrules
    split at hrules
    · next text htext =>
      obtain rfl := Utf8.decode?_eq_some_iff.1 htext
      obtain ⟨line, hline, hof⟩ := IgnoreRules.exists_line_of_mem hrules hrule
      exact .malformedSet hread hline hof hnone
    · cases hrules

end Rules

/-! ## Searches -/

section Searches

variable {ε : Type} {ignore : IgnoreReader ε} {fs : FileSystem} {root dir : Path} {config : Config}
variable {entries : List (String × Entry)} {e : SearchError ε}

/-- The ignore files that make no test. -/
theorem ignoreTest_eq_error_iff :
    ignoreTest ignore fs root dir = .error e ↔ LoadFault ignore fs root dir e := by
  constructor
  · intro h
    unfold ignoreTest at h
    split at h
    · next lookup hlookup =>
      cases h
      obtain ⟨rfl, hlong⟩ := FileSystem.isFile_eq_error_iff.1 hlookup
      exact .lookup hlong
    · cases h
    · next hfile =>
      split at h
      · next cause hcause =>
        cases h
        exact .ignoreFile (FileSystem.isFile_iff.1 hfile) hcause
      · cases h
  · rintro (hlong | ⟨hfile, hcause⟩)
    · rw [ignoreTest, FileSystem.isFile_eq_error_iff.2 ⟨rfl, hlong⟩]
    · rw [ignoreTest, FileSystem.isFile_iff.2 hfile]
      dsimp only
      rw [hcause]

theorem ignoreFault_of_fails (h : (config.search (ignoreTest ignore fs root)).Fails entries e)
    (hwf : (Entry.directory entries).isWellFormed = true) :
    ∃ dir, Consulted config.nestedGitignore entries dir ∧
      IgnoreFault ignore fs root entries dir e := by
  obtain ⟨dir, hdir, hfault⟩ := h
  refine ⟨dir, ?_, ?_⟩
  · rcases hdir with rfl | ⟨hnested, inherited, inner, hvisits⟩
    · exact ⟨⟨entries, .nil entries⟩, .inl rfl⟩
    · exact ⟨⟨inner, hvisits.reached hwf⟩, .inr hnested⟩
  · rcases hfault with hmake | ⟨test, path, found, htest, hfound, hask⟩
    · exact .load (ignoreTest_eq_error_iff.1 hmake)
    · obtain ⟨hfile, own, hown, rfl⟩ := ignoreTest_eq_some_iff.1 htest
      cases hanswer : own path with
      | ok out =>
        rw [PathTest.lift, hanswer] at hask
        cases hask
      | error cause =>
        rw [PathTest.lift, hanswer] at hask
        cases hask
        exact .ask hfile hown hfound hanswer

theorem exists_fault_of_discover (hwf : fs.root.isWellFormed = true)
    (hroot : fs.locate root = .ok (.directory entries))
    (h : discover ignore fs root config = .error e) :
    ∃ dir, Consulted config.nestedGitignore entries dir ∧
      IgnoreFault ignore fs root entries dir e := by
  have hentries := FileSystem.isWellFormed_of_locate hwf hroot
  rw [discover, hroot] at h
  rcases bind_eq_error.1 h with h | ⟨_, -, h⟩
  · exact ignoreFault_of_fails (fails_of_walk hentries h) hentries
  · cases h

end Searches

/-! ## Runs -/

section Runs

variable {ε : Type} {ignore : IgnoreReader ε} {parse : Parser} {fs : FileSystem} {root : Path}
variable {config : Config} {jobs : Int} {entries : List (String × Entry)}

/-- A run over a directory fails when the search for its files does. -/
theorem run_eq_error_iff {e : SearchError ε} (hroot : fs.locate root = .ok (.directory entries)) :
    run ignore parse fs root config jobs = .error e ↔
      config.enabled = true ∧ discover ignore fs root config = .error e := by
  unfold run
  split
  · next henabled =>
    simp [reports, targets, FileSystem.isFile_of_directory hroot, bind_eq_error, henabled, pure,
      Except.pure]
  · next hdisabled => simp [hdisabled]

/-- A run that reads ignore files as rules fails for a link to a name that is too long, or for what
is wrong with the rules. -/
theorem exists_rulesFault_of_run {e : SearchError IgnoreError} (hwf : fs.root.isWellFormed = true)
    (hroot : fs.locate root = .ok (.directory entries))
    (h : run (parseIgnoreFile fs root) parse fs root config jobs = .error e) :
    ∃ dir, Consulted config.nestedGitignore entries dir ∧
      (fs.locate (root ++ dir ++ [ignoreFileName]) = .error .nameTooLong ∨
        ∃ cause, e = .ignoreFile cause ∧
          RulesFault fs (root ++ dir ++ [ignoreFileName]) cause) := by
  obtain ⟨-, hdiscover⟩ := (run_eq_error_iff hroot).1 h
  obtain ⟨dir, hdir, (hlong | ⟨hfile, hcause⟩) | ⟨-, hown, -, hask⟩⟩ :=
    exists_fault_of_discover hwf hroot hdiscover
  · exact ⟨dir, hdir, .inl hlong⟩
  · exact ⟨dir, hdir, .inr ⟨_, rfl, ((parseIgnoreFile_eq_error_iff hfile).1 hcause).1⟩⟩
  · exact ⟨dir, hdir, .inr ⟨_, rfl, rulesFault_of_ask hown hask⟩⟩

/-- Each file of a run is inspected or skipped. -/
theorem partitions_fileReports (parse : Parser) (fs : FileSystem) (root : Path) {files : List Path}
    (hfiles : (files.map Path.relativeText).Pairwise (· < ·)) :
    (RunResult.ofReports (fileReports parse fs root files)).Partitions files
      fun file => IsSkipped parse fs (root ++ file) where
  nodup := hfiles.nodup
  perm := by
    have hskipped : ∀ r : FileReport, r.error?.isSome = !r.error?.isNone := by simp
    rw [← path_fileReports parse fs root, RunResult.ofReports, ← List.map_append]
    simp only [hskipped]
    exact (List.filter_append_perm _ _).map _
  skipped_iff file := mem_skipped_iff parse fs root hfiles

end Runs

/-! ## Top theorem -/

/-- However ignore files are read, a run over a directory ends with a result: an empty one when it
is switched off, else one that has each discovered file as inspected or as skipped.  Or it fails,
because of an ignore file in the tree.  One in the directory itself that makes no test makes every
run fail that is not switched off. -/
theorem run_completes {ε : Type} (ignore : IgnoreReader ε) (parse : Parser) {fs : FileSystem}
    {root : Path} (config : Config) {entries : List (String × Entry)}
    (hwf : fs.root.isWellFormed = true) (hroot : fs.locate root = .ok (.directory entries))
    (jobs : Int) :
    ((∃ r, run ignore parse fs root config jobs = .ok r ∧
        (config.enabled = false ∧ r.result = .empty ∨
          config.enabled = true ∧ ∃ files, discover ignore fs root config = .ok files ∧
            r.result.Partitions files fun file => IsSkipped parse fs (root ++ file))) ∨
      config.enabled = true ∧ ∃ e, run ignore parse fs root config jobs = .error e ∧
        ∃ dir, Consulted config.nestedGitignore entries dir ∧
          IgnoreFault ignore fs root entries dir e) ∧
      ∀ e, LoadFault ignore fs root [] e → config.enabled = true →
        run ignore parse fs root config jobs = .error e := by
  constructor
  · cases hrun : run ignore parse fs root config jobs with
    | error e =>
      obtain ⟨henabled, hdiscover⟩ := (run_eq_error_iff hroot).1 hrun
      exact .inr ⟨henabled, e, rfl, exists_fault_of_discover hwf hroot hdiscover⟩
    | ok r =>
      refine .inl ⟨r, rfl, ?_⟩
      rcases run_cases hrun with hdisabled | ⟨henabled, all, hall, hresult⟩
      · exact .inl hdisabled
      rcases reports_cases hall with ⟨hfile, -⟩ | ⟨-, files, hfiles, rfl⟩
      · cases hfile.symm.trans (FileSystem.isFile_of_directory hroot)
      have hincreasing := List.pairwise_map.2 (pairwise_discover hwf hfiles)
      rw [hresult]
      exact .inr ⟨henabled, files, hfiles, partitions_fileReports parse fs root hincreasing⟩
  · intro e hfault henabled
    exact (run_eq_error_iff hroot).2
      ⟨henabled, discover_eq_error (ignoreTest_eq_error_iff.2 hfault)⟩

/-- A project with an ignore file, a file that does not parse and one that may not be read. -/
def brokenFiles (ignored : List UInt8) : List (String × Entry) :=
  [(ignoreFileName, .file (some ignored)), ("a.rb", .file (some [0x28])),
    ("b.rb", .file (some [])), ("c.rb", .file none)]

def brokenDisk (ignored : List UInt8) : FileSystem := ⟨.directory (brokenFiles ignored)⟩

theorem locate_brokenDisk (ignored : List UInt8) :
    (brokenDisk ignored).locate [] = .ok (.directory (brokenFiles ignored)) :=
  FileSystem.locate_nil _

theorem isWellFormed_brokenDisk (ignored : List UInt8) :
    (brokenDisk ignored).root.isWellFormed = true :=
  rfl

def brokenReader (ignored : List UInt8) : IgnoreReader IgnoreError :=
  parseIgnoreFile (brokenDisk ignored) []

theorem discover_brokenFiles :
    discover (brokenReader (namedBytes false)) (brokenDisk (namedBytes false)) [] Config.default =
      .ok [["a.rb"], ["c.rb"]] := by
  let fs := brokenDisk (namedBytes false)
  let s := Config.default.search (ignoreTest (brokenReader (namedBytes false)) fs [])
  have hfirst : s.testAt [] = .ok (some projectTest) :=
    ignoreTest_eq_namedTest (FileSystem.read_of_at? (isWellFormed_brokenDisk _) rfl)
  have hvisit : s.visit [projectTest] [] (brokenFiles (namedBytes false)) =
      .ok ⟨[projectTest], [], [["a.rb"], ["c.rb"]]⟩ := by
    have htests : s.testsAt [projectTest] [] = .ok [projectTest] := by
      simp [Search.testsAt]
    have hdirs : remaining [projectTest] []
        (sortByName (openDirectories (brokenFiles (namedBytes false)))) = .ok [] := by
      have hsort : sortByName (openDirectories (brokenFiles (namedBytes false))) = [] :=
        List.mergeSort_nil
      rw [hsort]
      rfl
    have hfiles : remaining [projectTest] []
        ((brokenFiles (namedBytes false)).filter (·.2.isFile)) =
          .ok [(ignoreFileName, .file (some (namedBytes false))),
            ("a.rb", .file (some [0x28])), ("c.rb", .file none)] := rfl
    have hselected : s.selected [] [(ignoreFileName, .file (some (namedBytes false))),
        ("a.rb", .file (some [0x28])), ("c.rb", .file none)] = [["a.rb"], ["c.rb"]] := by
      decide +kernel
    exact bind_eq_ok.2 ⟨_, htests, bind_eq_ok.2 ⟨_, hdirs, bind_eq_ok.2 ⟨_, hfiles,
      by rw [hselected]; rfl⟩⟩⟩
  have hwalk : s.walk (brokenFiles (namedBytes false)) = .ok (some [["a.rb"], ["c.rb"]]) := by
    rw [Search.walk, hfirst]
    show s.walkFrom [([], brokenFiles (namedBytes false))] [([], [projectTest])] = _
    simp [hvisit, Visit.pending, Visit.table, Search.walkFrom_cons, Search.walkFrom_nil,
      bind, Except.bind, pure, Except.pure]
  have hsort : sortPaths [["a.rb"], ["c.rb"]] = [["a.rb"], ["c.rb"]] :=
    List.mergeSort_of_pairwise (by decide)
  rw [discover, locate_brokenDisk]
  exact bind_eq_ok.2 ⟨_, hwalk, congrArg Except.ok hsort⟩

/-- Files that do not parse or cannot be read are skipped. -/
theorem run_completes_brokenFiles :
    (brokenDisk (namedBytes false)).root.isWellFormed = true ∧
      (brokenDisk (namedBytes false)).locate [] =
        .ok (.directory (brokenFiles (namedBytes false))) ∧
      ∃ r, run (brokenReader (namedBytes false)) mixedParser (brokenDisk (namedBytes false)) []
          Config.default 2 = .ok r ∧
        (r.result.inspected ++ r.result.skipped).Perm ["a.rb", "c.rb"] ∧
        "a.rb" ∈ r.result.skipped ∧ "c.rb" ∈ r.result.skipped := by
  have hwf := isWellFormed_brokenDisk (namedBytes false)
  have hroot := locate_brokenDisk (namedBytes false)
  refine ⟨hwf, hroot, ?_⟩
  rcases (run_completes (brokenReader _) mixedParser Config.default hwf hroot 2).1 with
    ⟨r, hrun, ⟨hdisabled, -⟩ | ⟨-, files, hfiles, hparts⟩⟩ | ⟨-, e, hrun, -⟩
  · cases hdisabled
  · cases discover_brokenFiles.symm.trans hfiles
    have hread : (brokenDisk (namedBytes false)).read ["a.rb"] = .ok [0x28] :=
      FileSystem.read_of_at? hwf rfl
    have hdenied : (brokenDisk (namedBytes false)).read ["c.rb"] = .error .denied := by
      rw [FileSystem.read, FileSystem.locate_of_at? hwf (e := .file none) rfl nofun]
    refine ⟨r, hrun, hparts.perm, ?_, ?_⟩
    · exact (hparts.skipped_iff ["a.rb"] (by decide)).2 (.inr ⟨[0x28], hread, rfl⟩)
    · exact (hparts.skipped_iff ["c.rb"] (by decide)).2 (.inl ⟨.denied, hdenied⟩)
  · have hdiscover := ((run_eq_error_iff hroot).1 hrun).2
    cases discover_brokenFiles.symm.trans hdiscover

/-- Not every run ends with a result: an ignore file that is no UTF-8 makes it fail. -/
theorem not_all_runs_complete :
    ¬ ∀ (parse : Parser) (fs : FileSystem) (root : Path) (config : Config)
      (entries : List (String × Entry)), fs.root.isWellFormed = true → config.Valid →
        fs.locate root = .ok (.directory entries) →
        ∃ r, run (parseIgnoreFile fs root) parse fs root config config.jobs = .ok r := by
  intro h
  have hroot := locate_brokenDisk [0xff]
  have hwf := isWellFormed_brokenDisk [0xff]
  obtain ⟨r, hrun⟩ := h mixedParser _ [] Config.default _ hwf Config.valid_default hroot
  have hfirst : ignoreTest (brokenReader [0xff]) (brokenDisk [0xff]) [] [] =
      .error (.ignoreFile .notUtf8) := by
    have hread : (brokenDisk [0xff]).read [ignoreFileName] = .ok [0xff] :=
      FileSystem.read_of_at? hwf rfl
    have hasked := FileSystem.isFile_iff.2 ⟨_, FileSystem.read_eq_ok_iff.1 hread⟩
    have hparse : brokenReader [0xff] [] = .error .notUtf8 := by
      rw [brokenReader, parseIgnoreFile, List.append_nil, List.nil_append, hread]
      rfl
    rw [ignoreTest, List.append_nil, List.nil_append, hasked, hparse]
  have hdiscover : discover (brokenReader [0xff]) (brokenDisk [0xff]) [] Config.default =
      .error (.ignoreFile .notUtf8) := discover_eq_error hfirst
  cases hrun.symm.trans ((run_eq_error_iff hroot).2 ⟨rfl, hdiscover⟩)

end CallAlign
