import CallAlign.Proofs.DiscoveredFiles
import CallAlign.Run

/-!
# Runs over directories

A run over a directory puts together what runs over its files give.  The order in which files are
discovered is the order of their paths in reports, and the offenses of one file are sorted already,
so that the last sort finds nothing to do.

    concatenates_fileReports : what the reports of files in order make
    run_directory            : a run over a directory is the concatenation of runs over its files
-/

namespace CallAlign

/-! ## The order of reports -/

namespace FileOffense

theorem reportLE_of_path_lt {a b : FileOffense} (h : a.path < b.path) : a.reportLE b = true := by
  have hne : a.path ≠ b.path := by
    intro heq
    rw [heq] at h
    exact String.lt_irrefl _ h
  rw [reportLE, if_pos (bne_iff_ne.2 hne)]
  exact codePointLE_of_lt (String.lt_iff.1 h)

/-- Offenses of one file are in the order of their positions. -/
theorem reportLE_ofOffense (path cop : String) {a b : Offense} (h : a.positionLE b = true) :
    (ofOffense path cop a).reportLE (ofOffense path cop b) = true := by
  simp only [Offense.positionLE, Bool.or_eq_true, Bool.and_eq_true, decide_eq_true_eq,
    beq_iff_eq] at h
  rw [reportLE, if_neg (by simp [ofOffense])]
  by_cases hline : a.line = b.line
  · rw [if_neg (by simpa [ofOffense] using hline)]
    by_cases hcolumn : a.column = b.column
    · rw [if_neg (by simpa [ofOffense] using hcolumn)]
      show codePointLE cop.toList cop.toList = true
      simpa using codePointLE_total cop.toList cop.toList
    · rw [if_pos (by simpa [ofOffense] using hcolumn), decide_eq_true_eq]
      show a.column ≤ b.column
      omega
  · rw [if_pos (by simpa [ofOffense] using hline), decide_eq_true_eq]
    show a.line ≤ b.line
    omega

end FileOffense

theorem sortReport_eq_self {offenses : List FileOffense}
    (h : offenses.Pairwise fun a b => a.reportLE b = true) : sortReport offenses = offenses :=
  List.mergeSort_of_pairwise h

/-! ## The report of a file -/

/-- A file is skipped: it cannot be read, or its tree has an error. -/
def IsSkipped (parse : Parser) (fs : FileSystem) (file : Path) : Prop :=
  (∃ e, fs.read file = .error e) ∨
    ∃ bytes, fs.read file = .ok bytes ∧ (parse bytes).hasError = true

section Report

variable (parse : Parser) (fs : FileSystem) (file : Path) (name : String)

/-- A file is skipped, or its offenses are those of a tree; its name does not matter. -/
theorem inspectFile_cases :
    IsSkipped parse fs file ∧
        (∃ outcome, (∀ offenses exempt, outcome ≠ .inspected offenses exempt) ∧
          ∀ name, inspectFile parse fs file name = ⟨name, outcome⟩) ∨
      ¬ IsSkipped parse fs file ∧ ∃ root lines exempt, ∀ name,
        inspectFile parse fs file name = ⟨name, .inspected (inspect root lines) exempt⟩ := by
  unfold IsSkipped
  cases hread : fs.read file with
  | error e =>
    left
    refine ⟨.inl ⟨e, rfl⟩, .unreadable (e.message file), by simp, fun name => ?_⟩
    rw [inspectFile, hread]
  | ok bytes =>
    cases herror : (parse bytes).hasError with
    | true =>
      left
      refine ⟨.inr ⟨bytes, rfl, herror⟩, .malformed .malformed, by simp, fun name => ?_⟩
      rw [inspectFile, hread]
      simp [Source.outcome, Source.strict, Source.ofBytes, herror]
    | false =>
      right
      let source := Source.ofBytes parse bytes
      refine ⟨by simp [herror], source.root, source.lines, tabExempt source.root source.lines,
        fun name => ?_⟩
      rw [inspectFile, hread]
      simp [source, Source.outcome, Source.strict, Source.ofBytes, herror]

theorem path_inspectFile : (inspectFile parse fs file name).path = name := by
  unfold inspectFile
  split <;> rfl

theorem error?_isSome_iff :
    (inspectFile parse fs file name).error?.isSome = true ↔ IsSkipped parse fs file := by
  rcases inspectFile_cases parse fs file with
    ⟨hskip, outcome, hout, heq⟩ | ⟨hkeep, root, lines, exempt, heq⟩
  · rw [heq name]
    cases outcome with
    | inspected offenses exempt => exact absurd rfl (hout offenses exempt)
    | unreadable reason => simp [FileReport.error?, hskip]
    | malformed e => simp [FileReport.error?, hskip]
  · rw [heq name]
    simp [FileReport.error?, hkeep]

/-- The offenses of a file are those of a tree under the name of the file, if it has any. -/
theorem offenses_inspectFile :
    ∃ offenses : List Offense, (offenses.Pairwise fun a b => a.positionLE b = true) ∧
      (IsSkipped parse fs file → offenses = []) ∧
      ∀ name, (inspectFile parse fs file name).offenses =
        offenses.map (FileOffense.ofOffense name copName) := by
  rcases inspectFile_cases parse fs file with
    ⟨hskip, outcome, hout, heq⟩ | ⟨hkeep, root, lines, exempt, heq⟩
  · refine ⟨[], List.Pairwise.nil, fun _ => rfl, fun name => ?_⟩
    rw [heq name]
    cases outcome with
    | inspected offenses exempt => exact absurd rfl (hout offenses exempt)
    | unreadable reason => rfl
    | malformed e => rfl
  · refine ⟨inspect root lines, pairwise_sortOffenses _, fun h => absurd h hkeep, fun name => ?_⟩
    rw [heq name]
    rfl

/-- A file has its offenses in order. -/
theorem pairwise_offenses :
    (inspectFile parse fs file name).offenses.Pairwise fun a b => a.reportLE b = true := by
  obtain ⟨offenses, hsorted, -, heq⟩ := offenses_inspectFile parse fs file
  rw [heq name, List.pairwise_map]
  exact hsorted.imp fun h => FileOffense.reportLE_ofOffense name copName h

theorem offenses_eq_nil_of_isSkipped (h : IsSkipped parse fs file) :
    (inspectFile parse fs file name).offenses = [] := by
  obtain ⟨offenses, -, hnil, heq⟩ := offenses_inspectFile parse fs file
  rw [heq name, hnil h, List.map_nil]

/-- The same file under another name has the same offenses, under that name. -/
theorem relabel_offenses (name' : String) :
    ((inspectFile parse fs file name).offenses.map fun o => { o with path := name' }) =
      (inspectFile parse fs file name').offenses := by
  obtain ⟨offenses, -, -, heq⟩ := offenses_inspectFile parse fs file
  rw [heq name, heq name', List.map_map]
  rfl

theorem path_of_mem_offenses {o : FileOffense}
    (h : o ∈ (inspectFile parse fs file name).offenses) : o.path = name := by
  obtain ⟨offenses, -, -, heq⟩ := offenses_inspectFile parse fs file
  rw [heq name, List.mem_map] at h
  obtain ⟨_, -, rfl⟩ := h
  rfl

end Report

/-! ## Reports put together -/

section Reports

variable {reports : List FileReport}

/-- Of reports with distinct paths, the paths of those that pass a test tell them apart. -/
theorem path_mem_filter_iff (hnd : (reports.map (·.path)).Nodup) (test : FileReport → Bool)
    {r : FileReport} (hr : r ∈ reports) :
    r.path ∈ (reports.filter test).map (·.path) ↔ test r = true := by
  rw [List.mem_map]
  constructor
  · rintro ⟨r', hr', hpath⟩
    obtain ⟨hmem, htest⟩ := List.mem_filter.1 hr'
    rw [← List.inj_on_of_nodup_map hnd hmem hr hpath]
    exact htest
  · intro htest
    exact ⟨r, List.mem_filter.2 ⟨hr, htest⟩, rfl⟩

/-- Reports in the order of their paths are put together as they come. -/
theorem pairwise_flatMap_offenses (hpaths : reports.Pairwise fun r r' => r.path < r'.path)
    (hsorted : ∀ r ∈ reports, r.offenses.Pairwise fun a b => a.reportLE b = true)
    (hnamed : ∀ r ∈ reports, ∀ o ∈ r.offenses, o.path = r.path) :
    (reports.flatMap FileReport.offenses).Pairwise fun a b => a.reportLE b = true := by
  rw [List.pairwise_flatMap]
  refine ⟨hsorted, hpaths.imp_of_mem fun {r r'} hr hr' hlt a ha b hb => ?_⟩
  apply FileOffense.reportLE_of_path_lt
  rw [hnamed r hr a ha, hnamed r' hr' b hb]
  exact hlt

theorem flatMap_filter_of_eq_nil {α β : Type} (xs : List α) (p : α → Bool) (f : α → List β)
    (h : ∀ x ∈ xs, p x = false → f x = []) : (xs.filter p).flatMap f = xs.flatMap f := by
  induction xs with
  | nil => rfl
  | cons x xs ih =>
    rw [List.forall_mem_cons] at h
    cases hp : p x with
    | true => rw [List.filter_cons_of_pos hp, List.flatMap_cons, List.flatMap_cons, ih h.2]
    | false =>
      rw [List.filter_cons_of_neg (by simp [hp]), List.flatMap_cons, h.1 hp, ih h.2,
        List.nil_append]

end Reports

/-! ## Reports of the files below a directory -/

/-- The reports of some files below a directory. -/
def fileReports (parse : Parser) (fs : FileSystem) (root : Path) (files : List Path) :
    List FileReport :=
  files.map fun file => inspectFile parse fs (root ++ file) file.relativeText

/-- The result for a file below a directory by itself, under its own name. -/
def singleResult (parse : Parser) (fs : FileSystem) (root file : Path) : RunResult :=
  .ofReports [inspectFile parse fs (root ++ file) ((root ++ file).getLastD "")]

/-- The result of a run over some files puts the results of single files together.  Each file is
inspected or skipped, in the order of the files; the offenses are those of the inspected files, one
file after the other, each under the path of its file. -/
structure RunResult.Concatenates (r : RunResult) (files : List Path) (skips : Path → Prop)
    (single : Path → RunResult) : Prop where
  inspected_sublist : r.inspected.Sublist (files.map Path.relativeText)
  skipped_sublist : r.skipped.Sublist (files.map Path.relativeText)
  inspected_increasing : r.inspected.Pairwise (· < ·)
  skipped_increasing : r.skipped.Pairwise (· < ·)
  disjoint : r.inspected.Disjoint r.skipped
  covers : ∀ file ∈ files, file.relativeText ∈ r.inspected ∨ file.relativeText ∈ r.skipped
  skipped_iff : ∀ file ∈ files, file.relativeText ∈ r.skipped ↔ skips file
  offenses_eq : r.offenses =
    (files.filter fun file => r.inspected.contains file.relativeText).flatMap fun file =>
      (single file).offenses.map fun o => { o with path := file.relativeText }
  sorted : r.offenses.Pairwise fun a b => a.reportLE b = true

section Files

variable (parse : Parser) (fs : FileSystem) (root : Path) {files : List Path}

theorem path_fileReports :
    (fileReports parse fs root files).map (·.path) = files.map Path.relativeText := by
  rw [fileReports, List.map_map]
  exact List.map_congr_left fun file _ => path_inspectFile parse fs (root ++ file) _

theorem sublist_fileReports (test : FileReport → Bool) :
    (((fileReports parse fs root files).filter test).map (·.path)).Sublist
      (files.map Path.relativeText) := by
  rw [← path_fileReports parse fs root]
  exact List.filter_sublist.map _

/-- The final sort of a report has nothing to do for a single file. -/
theorem relabel_singleResult (file : Path) :
    ((singleResult parse fs root file).offenses.map fun o =>
        { o with path := file.relativeText }) =
      (inspectFile parse fs (root ++ file) file.relativeText).offenses := by
  have hsorted := pairwise_offenses parse fs (root ++ file) ((root ++ file).getLastD "")
  rw [singleResult, RunResult.ofReports, List.flatMap_singleton, sortReport_eq_self hsorted,
    relabel_offenses]

variable (hfiles : (files.map Path.relativeText).Pairwise (· < ·))
include hfiles

theorem path_mem_fileReports_iff (test : FileReport → Bool) {file : Path} (hfile : file ∈ files) :
    file.relativeText ∈ ((fileReports parse fs root files).filter test).map (·.path) ↔
      test (inspectFile parse fs (root ++ file) file.relativeText) = true := by
  have hnd : ((fileReports parse fs root files).map (·.path)).Nodup := by
    rw [path_fileReports]
    exact hfiles.nodup
  have hiff := path_mem_filter_iff hnd test (List.mem_map_of_mem hfile)
  rwa [path_inspectFile] at hiff

theorem mem_inspected_iff {file : Path} (hfile : file ∈ files) :
    file.relativeText ∈ (RunResult.ofReports (fileReports parse fs root files)).inspected ↔
      ¬ IsSkipped parse fs (root ++ file) := by
  rw [RunResult.ofReports, path_mem_fileReports_iff parse fs root hfiles _ hfile,
    ← error?_isSome_iff parse fs (root ++ file) file.relativeText]
  simp

theorem mem_skipped_iff {file : Path} (hfile : file ∈ files) :
    file.relativeText ∈ (RunResult.ofReports (fileReports parse fs root files)).skipped ↔
      IsSkipped parse fs (root ++ file) := by
  rw [RunResult.ofReports, path_mem_fileReports_iff parse fs root hfiles _ hfile,
    ← error?_isSome_iff]

theorem pairwise_offenses_fileReports :
    ((fileReports parse fs root files).flatMap FileReport.offenses).Pairwise
      fun a b => a.reportLE b = true := by
  apply pairwise_flatMap_offenses
  · rw [← path_fileReports parse fs root] at hfiles
    exact List.pairwise_map.1 hfiles
  · intro r hr
    obtain ⟨file, -, rfl⟩ := List.mem_map.1 hr
    exact pairwise_offenses parse fs (root ++ file) _
  · intro r hr o ho
    obtain ⟨file, -, rfl⟩ := List.mem_map.1 hr
    rw [path_inspectFile]
    exact path_of_mem_offenses parse fs (root ++ file) _ ho

/-- The reports of files in increasing order make the concatenation of single results. -/
theorem concatenates_fileReports :
    (RunResult.ofReports (fileReports parse fs root files)).Concatenates files
      (fun file => IsSkipped parse fs (root ++ file)) (singleResult parse fs root) := by
  have hsorted := pairwise_offenses_fileReports parse fs root hfiles
  have hoffenses : (RunResult.ofReports (fileReports parse fs root files)).offenses =
      (fileReports parse fs root files).flatMap FileReport.offenses := sortReport_eq_self hsorted
  refine
    { inspected_sublist := sublist_fileReports parse fs root _
      skipped_sublist := sublist_fileReports parse fs root _
      inspected_increasing := hfiles.sublist (sublist_fileReports parse fs root _)
      skipped_increasing := hfiles.sublist (sublist_fileReports parse fs root _)
      disjoint := ?_
      covers := ?_
      skipped_iff := fun file => mem_skipped_iff parse fs root hfiles
      offenses_eq := ?_
      sorted := hoffenses ▸ hsorted }
  · intro name hinspected hskipped
    obtain ⟨file, hfile, rfl⟩ :=
      List.mem_map.1 ((sublist_fileReports parse fs root _).subset hinspected)
    exact (mem_inspected_iff parse fs root hfiles hfile).1 hinspected
      ((mem_skipped_iff parse fs root hfiles hfile).1 hskipped)
  · intro file hfile
    by_cases hskip : IsSkipped parse fs (root ++ file)
    · exact .inr ((mem_skipped_iff parse fs root hfiles hfile).2 hskip)
    · exact .inl ((mem_inspected_iff parse fs root hfiles hfile).2 hskip)
  · rw [hoffenses, flatMap_filter_of_eq_nil]
    · simp only [relabel_singleResult, fileReports, List.flatMap_map]
    · intro file hfile hout
      rw [relabel_singleResult]
      apply offenses_eq_nil_of_isSkipped
      rw [List.contains_eq_mem, decide_eq_false_iff_not,
        mem_inspected_iff parse fs root hfiles hfile] at hout
      exact Classical.not_not.1 hout

end Files

/-! ## Runs -/

/-- Only inspected files have offenses. -/
theorem isNone_error?_of_mem_offenses {report : FileReport} {o : FileOffense}
    (h : o ∈ report.offenses) : report.error?.isNone = true := by
  unfold FileReport.offenses at h
  unfold FileReport.error?
  cases houtcome : report.outcome with
  | inspected offenses exempt => rfl
  | unreadable reason => simp [houtcome] at h
  | malformed e => simp [houtcome] at h

section Runs

variable {ε : Type} {ignore : IgnoreReader ε} {parse : Parser} {fs : FileSystem} {root : Path}
variable {config : Config} {jobs : Int}

theorem run_eq_ok {all : List FileReport} (henabled : config.enabled = true)
    (h : reports ignore parse fs root config jobs = .ok all) :
    run ignore parse fs root config jobs =
      .ok { result := .ofReports all, log := all.flatMap FileReport.log } := by
  rw [run, if_pos henabled, h]
  rfl

/-- A run reports on its targets one by one. -/
theorem reports_eq_ok {all : List FileReport}
    (h : reports ignore parse fs root config jobs = .ok all) :
    ∃ files, targets ignore fs root config = .ok files ∧
      all = files.map fun file => inspectFile parse fs file.1 file.2 := by
  obtain ⟨files, hfiles, h⟩ := bind_eq_ok.1 h
  cases h
  exact ⟨files, hfiles, inBatches_eq_map jobs _ files⟩

/-- The number of workers does not show. -/
theorem run_jobs (ignore : IgnoreReader ε) (parse : Parser) (fs : FileSystem) (root : Path)
    (config : Config) (jobs jobs' : Int) :
    run ignore parse fs root config jobs = run ignore parse fs root config jobs' := by
  simp only [run, reports, inBatches_eq_map]

/-- A run that is told its configuration is asked for with as many workers as one likes. -/
theorem runRequested_eq_ok {r : Run} (requested : Option Int)
    (h : run ignore parse fs root config jobs = .ok r) :
    runRequested ignore parse fs root (some config) requested = .ok r := by
  rw [run_jobs ignore parse fs root config jobs (requested.getD config.jobs)] at h
  exact congrArg (Except.mapError RunError.search) h

/-- A run is switched off, or puts its reports together. -/
theorem run_cases {r : Run} (h : run ignore parse fs root config jobs = .ok r) :
    config.enabled = false ∧ r.result = .empty ∨
      config.enabled = true ∧ ∃ all, reports ignore parse fs root config jobs = .ok all ∧
        r.result = .ofReports all := by
  unfold run at h
  split at h
  · next henabled =>
    obtain ⟨all, hall, h⟩ := bind_eq_ok.1 h
    cases h
    exact .inr ⟨henabled, all, hall, rfl⟩
  · next hdisabled =>
    cases h
    exact .inl ⟨by simpa using hdisabled, rfl⟩

/-- An offense of a run is one of a file that was inspected. -/
theorem exists_file_of_mem_offenses {r : Run} {o : FileOffense}
    (hrun : run ignore parse fs root config jobs = .ok r) (ho : o ∈ r.result.offenses) :
    ∃ file, o ∈ (inspectFile parse fs file o.path).offenses ∧ o.path ∈ r.result.inspected := by
  rcases run_cases hrun with ⟨-, hempty⟩ | ⟨-, all, hall, hresult⟩
  · rw [hempty] at ho
    cases ho
  · obtain ⟨files, -, rfl⟩ := reports_eq_ok hall
    rw [hresult] at ho ⊢
    obtain ⟨report, hreport, ho⟩ := List.mem_flatMap.1 ((List.mergeSort_perm _ _).mem_iff.1 ho)
    have hinspected : report.path ∈ (RunResult.ofReports _).inspected :=
      List.mem_map_of_mem (List.mem_filter.2 ⟨hreport, isNone_error?_of_mem_offenses ho⟩)
    obtain ⟨file, -, rfl⟩ := List.mem_map.1 hreport
    have hpath := path_of_mem_offenses parse fs file.1 file.2 ho
    rw [path_inspectFile, ← hpath] at hinspected
    exact ⟨file.1, hpath ▸ ho, hinspected⟩

/-- A run that inspects no file, because it is switched off or for another reason, finds no
offense. -/
theorem offenses_eq_nil_of_run {r : Run} (hrun : run ignore parse fs root config jobs = .ok r)
    (h : config.enabled = false ∨ r.result.inspected = []) : r.result.offenses = [] := by
  rcases run_cases hrun with ⟨-, hempty⟩ | ⟨henabled, -⟩
  · rw [hempty]
    rfl
  · have hnone := h.resolve_left (by simp [henabled])
    refine List.eq_nil_iff_forall_not_mem.2 fun o ho => ?_
    obtain ⟨_, -, hinspected⟩ := exists_file_of_mem_offenses hrun ho
    rw [hnone] at hinspected
    cases hinspected

/-- The report of a file by itself. -/
theorem reports_file (ignore : IgnoreReader ε) (parse : Parser) {file : Path} (config : Config)
    (hfile : fs.isFile file = .ok true) (jobs : Int) :
    reports ignore parse fs file config jobs =
      .ok [inspectFile parse fs file (file.getLastD "")] := by
  rw [reports, targets, hfile]
  simp only [bind, Except.bind, inBatches_eq_map, List.map_cons, List.map_nil]
  rfl

/-- The reports of a directory are those of the files discovered below it. -/
theorem reports_directory (parse : Parser) {entries : List (String × Entry)} {files : List Path}
    (hroot : fs.locate root = .ok (.directory entries))
    (hfiles : discover ignore fs root config = .ok files) (jobs : Int) :
    reports ignore parse fs root config jobs = .ok (fileReports parse fs root files) := by
  rw [reports, targets, FileSystem.isFile_of_directory hroot, hfiles]
  simp only [bind, Except.bind, pure, Except.pure, inBatches_eq_map, List.map_map]
  rfl

/-- A discovered file is found as a file below the root. -/
theorem isFile_of_mem_discover {entries : List (String × Entry)} {files : List Path}
    (hwf : fs.root.isWellFormed = true) (hroot : fs.locate root = .ok (.directory entries))
    (hfiles : discover ignore fs root config = .ok files) {file : Path} (hfile : file ∈ files) :
    fs.isFile (root ++ file) = .ok true := by
  have hentries := FileSystem.isWellFormed_of_locate hwf hroot
  obtain ⟨first, -, -, hkeeps⟩ := discover_ok hroot hentries hfiles
  obtain ⟨name, rest, contents, rfl, hat⟩ := ((hkeeps file).1 hfile).exists_file hentries
  exact FileSystem.isFile_iff.2 ⟨contents, FileSystem.locate_append hwf hroot hat nofun⟩

end Runs

/-! ## Top theorem -/

/-- A run over a directory is the concatenation of the runs over the files discovered below it,
whatever the numbers of workers.  A run over a file reads no ignore file. -/
theorem run_directory {ε : Type} {ignore : IgnoreReader ε} (fileIgnore : Path → IgnoreReader ε)
    (parse : Parser) {fs : FileSystem} {root : Path} {config : Config}
    {entries : List (String × Entry)} {files : List Path} (hwf : fs.root.isWellFormed = true)
    (henabled : config.enabled = true) (hroot : fs.locate root = .ok (.directory entries))
    (hfiles : discover ignore fs root config = .ok files) (jobs fileJobs : Int) :
    ∃ (r : Run) (single : Path → Run), run ignore parse fs root config jobs = .ok r ∧
      (∀ file ∈ files,
        run (fileIgnore file) parse fs (root ++ file) config fileJobs = .ok (single file)) ∧
      r.result.Concatenates files (fun file => IsSkipped parse fs (root ++ file))
        fun file => (single file).result := by
  have hentries := FileSystem.isWellFormed_of_locate hwf hroot
  obtain ⟨_, -, hincreasing, -⟩ := discover_ok hroot hentries hfiles
  let log (file : Path) :=
    [inspectFile parse fs (root ++ file) ((root ++ file).getLastD "")].flatMap FileReport.log
  refine ⟨_, fun file => ⟨singleResult parse fs root file, log file⟩,
    run_eq_ok henabled (reports_directory parse hroot hfiles jobs), ?_,
    concatenates_fileReports parse fs root (List.pairwise_map.2 hincreasing)⟩
  intro file hfile
  have hisFile := isFile_of_mem_discover hwf hroot hfiles hfile
  exact run_eq_ok henabled (reports_file (fileIgnore file) parse config hisFile fileJobs)

/-- `f(x,`, and on the next row ` y)`. -/
def shiftedBytes : List UInt8 := [0x66, 0x28, 0x78, 0x2C, 0x0A, 0x20, 0x79, 0x29]

/-- The call of `shiftedBytes`. -/
def shiftedCall : SyntaxTree ByteRange :=
  .node "call" ⟨⟨0, 0⟩, ⟨1, 3⟩⟩ [("method", 0), ("arguments", 1)]
    [.node "identifier" ⟨⟨0, 0⟩, ⟨0, 1⟩⟩ [] [],
     .node "argument_list" ⟨⟨0, 1⟩, ⟨1, 3⟩⟩ []
      [.node "(" ⟨⟨0, 1⟩, ⟨0, 2⟩⟩ [] [], .node "identifier" ⟨⟨0, 2⟩, ⟨0, 3⟩⟩ [] [],
       .node "," ⟨⟨0, 3⟩, ⟨0, 4⟩⟩ [] [], .node "identifier" ⟨⟨1, 1⟩, ⟨1, 2⟩⟩ [] [],
       .node ")" ⟨⟨1, 2⟩, ⟨1, 3⟩⟩ [] []]]

/-- The offenses of a file that parses are those of its tree and its lines. -/
theorem offenses_of_clean {parse : Parser} {fs : FileSystem} {file : Path} {bytes : List UInt8}
    {root : SyntaxTree ByteRange} (hparse : parse bytes = ⟨root, false⟩)
    (hread : fs.read file = .ok bytes) (name : String) :
    (inspectFile parse fs file name).offenses =
      (inspect ((RowTable.ofBytes bytes).read root) (SourceLines.ofText (Utf8.decode bytes))).map
        (FileOffense.ofOffense name copName) := by
  rw [inspectFile, hread]
  dsimp only
  rw [Source.outcome, Source.strict, Source.ofBytes, hparse]
  rfl

/-- A file with the call of `shiftedBytes` has one offense, under whatever name. -/
theorem offenses_shiftedBytes {parse : Parser} {fs : FileSystem} {file : Path}
    (hparse : parse shiftedBytes = ⟨shiftedCall, false⟩)
    (hread : fs.read file = .ok shiftedBytes) (name : String) :
    (inspectFile parse fs file name).offenses =
      [⟨name, copName, .convention, 2, 1, misalignedMessage⟩] := by
  let root := (RowTable.ofBytes shiftedBytes).read shiftedCall
  let lines := SourceLines.ofText (Utf8.decode shiftedBytes)
  have hfound : (callSites root).filterMap (checkCall lines) =
      [⟨.convention, misalignedMessage, 2, 1⟩] := by
    rw [callSites, SyntaxTree.walk_eq_preorder]
    decide
  have hinspect : inspect root lines = [⟨.convention, misalignedMessage, 2, 1⟩] := by
    rw [inspect, hfound]
    exact List.perm_singleton.1 (sortOffenses_perm _)
  rw [offenses_of_clean hparse hread, hinspect]
  rfl

/-- A file without calls, and in a directory one that holds `(` and does not parse and one whose
call is out of line.  The first file comes before the others, as `-` comes before the slash. -/
def mixedFiles : List (String × Entry) :=
  [("a", .directory [("b.rb", .file (some [0x28])), ("c.rb", .file (some shiftedBytes))]),
    ("a-b.rb", .file (some []))]

def mixedDisk : FileSystem := ⟨.directory mixedFiles⟩

def mixedReader : IgnoreReader IgnoreError := parseIgnoreFile mixedDisk []

def mixedSearch : Search (SearchError IgnoreError) :=
  Config.default.search (ignoreTest mixedReader mixedDisk [])

def mixedParser : Parser := fun bytes =>
  if bytes = shiftedBytes then ⟨shiftedCall, false⟩
  else ⟨.node "program" ⟨⟨0, 0⟩, ⟨0, bytes.length⟩⟩ [] [], bytes == [0x28]⟩

def mixedPaths : List Path := [["a-b.rb"], ["a", "b.rb"], ["a", "c.rb"]]

theorem isWellFormed_mixedDisk : mixedDisk.root.isWellFormed = true := by decide

theorem discover_mixedFiles :
    discover mixedReader mixedDisk [] Config.default = .ok mixedPaths := by
  let inner : List (String × Entry) :=
    [("b.rb", .file (some [0x28])), ("c.rb", .file (some shiftedBytes))]
  have hroot : mixedDisk.locate [] = .ok (.directory mixedFiles) := FileSystem.locate_nil _
  have hfirst : mixedSearch.testAt [] = .ok none :=
    ignoreTest_of_missing (FileSystem.locate_missing hroot (by decide) rfl)
  have htop : mixedSearch.visit [] [] mixedFiles = .ok ⟨[], [("a", inner)], [["a-b.rb"]]⟩ := by
    have hsort : sortByName (openDirectories mixedFiles) = [("a", inner)] :=
      List.mergeSort_singleton _
    have hselected : mixedSearch.selected [] (mixedFiles.filter (·.2.isFile)) = [["a-b.rb"]] := by
      decide +kernel
    rw [Search.visit_of_noTests rfl, hsort, hselected]
  have hinner : mixedSearch.visit [] ["a"] inner =
      .ok ⟨[], [], [["a", "b.rb"], ["a", "c.rb"]]⟩ := by
    have hsort : sortByName (openDirectories inner) = [] := List.mergeSort_nil
    have hselected : mixedSearch.selected ["a"] (inner.filter (·.2.isFile)) =
        [["a", "b.rb"], ["a", "c.rb"]] := by
      decide +kernel
    rw [Search.visit_of_noTests rfl, hsort, hselected]
  have hwalk : mixedSearch.walk mixedFiles = .ok (some mixedPaths) := by
    rw [Search.walk, hfirst]
    show mixedSearch.walkFrom [([], mixedFiles)] [([], [])] = _
    simp [htop, hinner, mixedPaths, Visit.pending, Visit.table, Search.walkFrom_cons,
      Search.walkFrom_nil, bind, Except.bind, pure, Except.pure]
  have hsort : sortPaths mixedPaths = mixedPaths := List.mergeSort_of_pairwise (by decide)
  rw [discover, hroot]
  exact bind_eq_ok.2 ⟨_, hwalk, congrArg Except.ok hsort⟩

/-- A run over `mixedFiles` by two workers skips the file that does not parse.  Its one offense is
that of `c.rb` by itself, under the path of the file. -/
theorem run_mixedFiles :
    mixedDisk.root.isWellFormed = true ∧ Config.default.enabled = true ∧
      mixedDisk.locate [] = .ok (.directory mixedFiles) ∧
      discover mixedReader mixedDisk [] Config.default = .ok mixedPaths ∧
      ∃ r, run mixedReader mixedParser mixedDisk [] Config.default 2 = .ok r ∧
        "a-b.rb" ∈ r.result.inspected ∧ "a/b.rb" ∈ r.result.skipped ∧
        r.result.offenses = [⟨"a/c.rb", copName, .convention, 2, 1, misalignedMessage⟩] := by
  have hwf := isWellFormed_mixedDisk
  have hroot : mixedDisk.locate [] = .ok (.directory mixedFiles) := FileSystem.locate_nil _
  obtain ⟨r, single, hrun, hsingle, hparts⟩ :=
    run_directory (parseIgnoreFile mixedDisk) mixedParser hwf rfl hroot discover_mixedFiles 2 1
  have hempty : mixedDisk.read ["a-b.rb"] = .ok [] := FileSystem.read_of_at? hwf rfl
  have hbroken : mixedDisk.read ["a", "b.rb"] = .ok [0x28] := FileSystem.read_of_at? hwf rfl
  have hshifted : mixedDisk.read ["a", "c.rb"] = .ok shiftedBytes :=
    FileSystem.read_of_at? hwf rfl
  have hskipped : "a/b.rb" ∈ r.result.skipped :=
    (hparts.skipped_iff ["a", "b.rb"] (by decide)).2 (.inr ⟨[0x28], hbroken, rfl⟩)
  have hinspected : ∀ file ∈ mixedPaths, ∀ bytes, mixedDisk.read file = .ok bytes →
      (mixedParser bytes).hasError = false → file.relativeText ∈ r.result.inspected := by
    intro file hfile bytes hread hclean
    refine (hparts.covers file hfile).resolve_right fun hskipped => ?_
    rcases (hparts.skipped_iff file hfile).1 hskipped with ⟨e, he⟩ | ⟨other, hother, herror⟩
    · cases hread.symm.trans he
    · cases hread.symm.trans hother
      cases hclean.symm.trans herror
  have hfirst : "a-b.rb" ∈ r.result.inspected := hinspected ["a-b.rb"] (by decide) [] hempty rfl
  have hlast : "a/c.rb" ∈ r.result.inspected :=
    hinspected ["a", "c.rb"] (by decide) shiftedBytes hshifted rfl
  have hbetween : "a/b.rb" ∉ r.result.inspected := fun h => hparts.disjoint h hskipped
  have hnone : (inspectFile mixedParser mixedDisk ["a-b.rb"] "a-b.rb").offenses = [] := by
    rw [offenses_of_clean rfl hempty, inspect, callSites, SyntaxTree.walk_eq_preorder]
    show (sortOffenses []).map _ = []
    rw [sortOffenses, List.mergeSort_nil, List.map_nil]
  refine ⟨hwf, rfl, hroot, discover_mixedFiles, r, hrun, hfirst, hskipped, ?_⟩
  have hrelabel : ∀ file ∈ mixedPaths,
      ((single file).result.offenses.map fun o => { o with path := Path.relativeText file }) =
        (inspectFile mixedParser mixedDisk file (Path.relativeText file)).offenses := by
    intro file hfile
    have hisFile := isFile_of_mem_discover hwf hroot discover_mixedFiles hfile
    have hreports :=
      reports_file (parseIgnoreFile mixedDisk file) mixedParser Config.default hisFile 1
    rw [← Except.ok.inj ((run_eq_ok rfl hreports).symm.trans (hsingle file hfile))]
    exact relabel_singleResult mixedParser mixedDisk [] file
  have hpaths : (mixedPaths.filter fun file => r.result.inspected.contains file.relativeText) =
      [["a-b.rb"], ["a", "c.rb"]] := by
    simp [mixedPaths, Path.relativeText, hfirst, hlast, hbetween]
  rw [hparts.offenses_eq, hpaths]
  simp only [List.flatMap_cons, List.flatMap_nil]
  rw [hrelabel _ (by decide), hrelabel _ (by decide)]
  show (inspectFile mixedParser mixedDisk ["a-b.rb"] "a-b.rb").offenses ++
    ((inspectFile mixedParser mixedDisk ["a", "c.rb"] "a/c.rb").offenses ++ []) = _
  rw [hnone, offenses_shiftedBytes rfl hshifted]
  rfl

end CallAlign
