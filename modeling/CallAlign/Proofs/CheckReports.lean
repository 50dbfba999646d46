import CallAlign.CommandLine
import CallAlign.Proofs.OffensePositions

/-!
# The reports of a check

One run can be reported as text and as JSON.  Both reports list the same offenses in the same order
(`SameOffense`), and the exit code says whether there are any.  A check that cannot begin is refused
before any file is parsed, so that the answer is the same for every grammar.

    linesOf_eq_intercalate : lines with line feeds between them, and one behind the last
    agree_of_fits          : the two reports of one result
    check_reports          : the reports of a check agree, and a refused check inspects nothing
-/

namespace CallAlign.CommandLine

/-! ## Definitions -/

/-- The words ask for a check of what is at `root`. -/
def Asks (w : World) (words : List String) (verbose : Bool) (root : Path)
    (format : Option ReportFormat) (jobs : Option Int) : Prop :=
  ∃ typed, Request.ofWords words = .ok { verbose, task := .check typed format jobs } ∧
    w.pathOf typed = .ok root

/-- Lines of text, each ended by a line feed. -/
def linesOf (lines : List String) : String := String.join (lines.map (· ++ "\n"))

/-- An entry of a text report and a record of a JSON report tell of one offense; the text counts
columns from one. -/
inductive SameOffense : String → Json → Prop where
  | intro (path cop message : String) (severity : Severity) (line column : Int) :
    SameOffense
      (path ++ ":" ++ toString line ++ ":" ++ toString (column + 1) ++ ": " ++ severity.code ++
        ": " ++ message)
      (.obj [("path", .str path), ("cop_name", .str cop), ("severity", .str severity.name),
        ("line", .int line), ("column", .int column), ("message", .str message)])

/-- What the text report and the JSON report of one result have in common: the exit code, which says
whether an offense was found, and the offenses. -/
structure Agree (r : RunResult) (text json : Exit) : Prop where
  code_eq : text.code = json.code
  code_cases : json.code = 0 ∨ json.code = 1
  code_eq_one_iff : json.code = 1 ↔ json.out ≠ ""
  reports : ∃ entries records, List.Forall₂ SameOffense entries records ∧
    json.out = linesOf (records.map fun record => String.ofList record.text) ∧
    text.out = linesOf (entries ++ r.skipped.map skippedText ++
      [counted r.inspected.length "file" ++ " inspected, " ++
        counted records.length "offense" ++ " detected"]) ∧
    (text.code = 1 ↔ 0 < records.length)

/-- Why a check cannot begin: the root is missing, its configuration file is rejected, or fewer than
one worker is asked for. -/
inductive Refused (w : World) (root : Path) (jobs : Option Int) : Prop where
  | missing {e : ReadError} : w.files.locate root = .error e → e ≠ .nameTooLong →
    Refused w root jobs
  | config {entry : Entry} {e : ConfigError} : w.files.locate root = .ok entry →
    loadConfig w.files root = .error e → (e = .notToml ∨ ∃ reason, e = .rejected reason) →
    Refused w root jobs
  | jobs {entry : Entry} {config : Config} {n : Int} : w.files.locate root = .ok entry →
    loadConfig w.files root = .ok config → jobs = some n → n < 1 → Refused w root jobs

/-! ## Lines -/

theorem linesOf_cons (line : String) (lines : List String) :
    linesOf (line :: lines) = line ++ "\n" ++ linesOf lines := by
  simp [linesOf]

theorem linesOf_eq_empty_iff {lines : List String} : linesOf lines = "" ↔ lines = [] := by
  cases lines with
  | nil => simp [linesOf]
  | cons line lines => simp [linesOf_cons]

/-- Lines with line feeds between them, and one behind the last. -/
theorem linesOf_eq_intercalate {lines : List String} (h : lines ≠ []) :
    "\n".intercalate lines ++ "\n" = linesOf lines := by
  induction lines with
  | nil => exact absurd rfl h
  | cons line lines ih =>
    rw [linesOf_cons]
    cases lines with
    | nil => simp [linesOf]
    | cons next rest =>
      rw [String.intercalate_cons_cons, String.append_assoc, ih (List.cons_ne_nil next rest)]

/-! ## Reports -/

theorem text_eq_linesOf (r : RunResult) :
    r.text = linesOf (r.offenses.map FileOffense.text ++ r.skipped.map skippedText ++
      [r.summary]) := by
  rw [RunResult.text, linesOf_eq_intercalate (by simp)]

theorem json?_eq_linesOf {r : RunResult} (hfits : ∀ o ∈ r.offenses, o.record.fits = true) :
    r.json? = some (linesOf ((r.offenses.map FileOffense.record).map fun record =>
      String.ofList record.text)) := by
  have hall : (r.offenses.map FileOffense.record).all Json.fits = true := by simpa using hfits
  have hlines : ∀ records : List Json,
      String.ofList (records.flatMap fun record => record.text ++ ['\n']) =
        linesOf (records.map fun record => String.ofList record.text) := by
    intro records
    induction records with
    | nil => rfl
    | cons record records ih =>
      rw [List.flatMap_cons, List.map_cons, linesOf_cons, ← ih, String.ofList_append,
        String.ofList_append]
  rw [RunResult.json?, jsonLines?, if_pos hall, hlines]

theorem sameOffense (o : FileOffense) : SameOffense o.text o.record :=
  .intro o.path o.cop o.message o.severity o.line o.column

/-- The two reports of one result agree. -/
theorem agree_of_fits {r : RunResult} (hfits : ∀ o ∈ r.offenses, o.record.fits = true)
    {json err err' : String} (hjson : r.json? = some json) :
    Agree r ⟨if r.ok then 0 else 1, r.text, err⟩ ⟨if r.ok then 0 else 1, json, err'⟩ := by
  rw [json?_eq_linesOf hfits, Option.some.injEq] at hjson
  have hcode : (if r.ok then 0 else 1) = 1 ↔ 0 < r.offenses.length := by
    cases h : r.offenses <;> simp [RunResult.ok, h]
  refine
    { code_eq := rfl
      code_cases := by cases r.ok <;> simp
      code_eq_one_iff := ?_
      reports :=
        ⟨r.offenses.map FileOffense.text, r.offenses.map FileOffense.record, ?_, ?_, ?_, ?_⟩ }
  · show (if r.ok then 0 else 1) = 1 ↔ json ≠ ""
    rw [hcode, ← hjson, Ne, linesOf_eq_empty_iff, List.length_pos_iff]
    simp
  · rw [List.forall₂_map_left_iff, List.forall₂_map_right_iff, List.forall₂_same]
    exact fun o _ => sameOffense o
  · exact hjson.symm
  · rw [List.length_map]
    exact text_eq_linesOf r
  · rw [List.length_map]
    exact hcode

/-! ## Paths -/

theorem pathOf_of_at? {w : World} {typed : String} {path : Path} {e : Entry}
    (hwf : w.files.root.isWellFormed = true) (hexpand : w.expand typed = .ok path)
    (hnul : '\x00' ∉ typed.toList) (he : w.files.root.at? path = some e)
    (hlink : ∀ target, e ≠ .link target) : w.pathOf typed = .ok path := by
  refine bind_eq_ok.2 ⟨path, hexpand, ?_⟩
  rw [if_neg (by simpa using hnul)]
  dsimp only
  rw [FileSystem.realPath_of_at? hwf he hlink, FileSystem.locate_of_at? hwf he hlink]

theorem configFile_of_directory {fs : FileSystem} {path : Path} {entries : List (String × Entry)}
    (h : fs.locate path = .ok (.directory entries)) :
    configFile fs path = .ok (path ++ [configFileName]) := by
  rw [configFile, configDirectory, FileSystem.isFile_of_directory h]
  rfl

theorem loadConfig_of_read {fs : FileSystem} {path file : Path} {bytes : List UInt8}
    (hfile : configFile fs path = .ok file) (hread : fs.read file = .ok bytes) :
    loadConfig fs path = Config.ofBytes bytes := by
  rw [loadConfig, hfile]
  dsimp only
  rw [Config.ofFile, FileSystem.isFile_iff.2 ⟨_, FileSystem.read_eq_ok_iff.1 hread⟩]
  dsimp only
  rw [hread]

/-! ## Checks -/

section

variable {w : World} {words : List String} {verbose : Bool} {root : Path}
variable {format : Option ReportFormat} {jobs : Option Int} {entry : Entry} {config : Config}

theorem execute_of_asks (h : Asks w words verbose root format jobs) :
    execute w words = check w verbose root format jobs := by
  obtain ⟨typed, hwords, hroot⟩ := h
  rw [execute, hwords]
  dsimp only
  rw [perform]
  dsimp only
  rw [hroot]
  rfl

/-- What a check does that is not refused. -/
theorem check_eq_inspectRoot (hroot : w.files.locate root = .ok entry)
    (hconfig : loadConfig w.files root = .ok config) (hjobs : ∀ n ∈ jobs, 1 ≤ n) :
    check w verbose root format jobs = inspectRoot w verbose root config format jobs := by
  have hfew : ¬ jobs.any (· < 1) = true := by
    cases jobs with
    | none => simp
    | some n =>
      have := hjobs n rfl
      simp only [Option.any_some, decide_eq_true_eq]
      omega
  rw [check, hroot]
  dsimp only
  rw [hconfig]
  dsimp only
  rw [if_neg hfew]

/-- A check of what can be run writes the report of that run, whatever the number of workers. -/
theorem execute_of_run {r : Run} {workers : Int} {out : String}
    (hasks : Asks w words verbose root format jobs)
    (hroot : w.files.locate root = .ok entry) (hconfig : loadConfig w.files root = .ok config)
    (hrun : run (parseIgnoreFile w.files root) w.parse w.files root config workers = .ok r)
    (hjobs : ∀ n ∈ jobs, 1 ≤ n)
    (hout : reportText (format.getD config.format) r.result = .ok out) :
    execute w words = .ok
      ⟨if r.result.ok then 0 else 1, out, LogRecord.printed verbose r.log⟩ := by
  rw [execute_of_asks hasks, check_eq_inspectRoot hroot hconfig hjobs, inspectRoot,
    runRequested_eq_ok jobs hrun]
  dsimp only
  rw [hout]

/-- An error about what a configuration file says has a message. -/
theorem exists_messageFor? {e : ConfigError} {fs : FileSystem} {details : ConfigError → String}
    (hconfig : loadConfig fs root = .error e) (he : e = .notToml ∨ ∃ reason, e = .rejected reason) :
    ∃ message, e.messageFor? details fs root = some message := by
  unfold loadConfig at hconfig
  unfold ConfigError.messageFor?
  split at hconfig
  · cases hconfig
    simp at he
  · next file hfile =>
    rw [hfile]
    rcases he with rfl | ⟨reason, rfl⟩
    · exact ⟨_, rfl⟩
    · cases reason <;> exact ⟨_, rfl⟩

/-- A check that is refused has the same answer for every grammar. -/
theorem execute_of_refused (hasks : Asks w words verbose root format jobs)
    (hrefused : Refused w root jobs) :
    ∃ message, ∀ parse, execute { w with parse } words = .ok (.refusal message) := by
  have hexecute : ∀ parse, execute { w with parse } words =
      check { w with parse } verbose root format jobs := fun parse => execute_of_asks hasks
  cases hrefused with
  | @missing e hroot he =>
    refine ⟨"no such file or directory: " ++ root.text, fun parse => ?_⟩
    rw [hexecute, check]
    dsimp only
    rw [hroot]
    cases e <;> first | rfl | exact absurd rfl he
  | @config _ e hroot hconfig he =>
    obtain ⟨message, hmessage⟩ := exists_messageFor? hconfig he
    refine ⟨message, fun parse => ?_⟩
    rw [hexecute, check]
    dsimp only
    rw [hroot]
    dsimp only
    rw [hconfig]
    dsimp only
    rw [hmessage]
  | @jobs _ _ n hroot hconfig hjobs hn =>
    refine ⟨"--jobs must be at least 1", fun parse => ?_⟩
    rw [hexecute, check]
    dsimp only
    rw [hroot]
    dsimp only
    rw [hconfig, hjobs]
    simp [hn]

end

/-! ## Top theorem -/

/-- The text report and the JSON report of a check agree, whatever format and number of workers the
configuration asks for; without an inspected file no offense is found.  A check of a missing root,
under a rejected configuration file or with too few workers ends with exit code 2 and writes
nothing to standard output; no file is parsed, and nothing is logged.  The names of files are
Unicode text, so that every report can be written. -/
theorem check_reports (w : World) (hparse : w.parse.CountsIn32Bits) (root : Path) :
    (∀ entry config workers r, w.files.locate root = .ok entry →
      loadConfig w.files root = .ok config →
      run (parseIgnoreFile w.files root) w.parse w.files root config workers = .ok r →
      ∀ words words' verbose verbose' jobs jobs', Asks w words verbose root (some .text) jobs →
        Asks w words' verbose' root (some .json) jobs' →
        (∀ n ∈ jobs, 1 ≤ n) → (∀ n ∈ jobs', 1 ≤ n) →
        ∃ text json, execute w words = .ok text ∧ execute w words' = .ok json ∧
          Agree r.result text json ∧
          (config.enabled = false ∨ r.result.inspected = [] → text.code = 0)) ∧
    ∀ words verbose format jobs, Asks w words verbose root format jobs → Refused w root jobs →
      ∃ message, ∀ parse,
        execute { w with parse } words = .ok ⟨2, "", "error: " ++ message ++ "\n"⟩ := by
  constructor
  · intro entry config workers r hroot hconfig hrun words words' verbose verbose' jobs jobs' hasks
      hasks' hjobs hjobs'
    have hfits := fits_of_mem_offenses hparse hrun
    have hjson := json?_eq_linesOf hfits
    refine ⟨_, _, execute_of_run hasks hroot hconfig hrun hjobs rfl,
      execute_of_run hasks' hroot hconfig hrun hjobs' ?_, agree_of_fits hfits hjson, ?_⟩
    · show reportText .json r.result = _
      rw [reportText, hjson]
    · intro hnone
      have hoffenses := offenses_eq_nil_of_run hrun hnone
      simp [RunResult.ok, hoffenses]
  · intro words verbose format jobs hasks hrefused
    exact execute_of_refused hasks hrefused

/-- A file with a call out of line, and a directory with a configuration file that is no UTF-8. -/
def shiftedWorld : World :=
  { files := ⟨.directory [("a.rb", .file (some shiftedBytes)),
      ("lib", .directory [(configFileName, .file (some [0xFF]))])]⟩
    current := []
    home := []
    parse := fun _ => ⟨shiftedCall, false⟩
    details := ConfigError.details }

theorem isWellFormed_shiftedWorld : shiftedWorld.files.root.isWellFormed = true := by decide

theorem locate_shiftedWorld : shiftedWorld.files.locate ["lib"] =
    .ok (.directory [(configFileName, .file (some [0xFF]))]) :=
  FileSystem.locate_of_at? isWellFormed_shiftedWorld rfl nofun

/-- The configuration file in `lib` is no UTF-8. -/
theorem loadConfig_shiftedWorld : loadConfig shiftedWorld.files ["lib"] = .error .notUtf8 := by
  have hread : shiftedWorld.files.read ["lib", configFileName] = .ok [0xFF] :=
    FileSystem.read_of_at? isWellFormed_shiftedWorld rfl
  rw [loadConfig_of_read (configFile_of_directory locate_shiftedWorld) hread]
  decide +kernel

/-- One file of `shiftedWorld` is reported with its offense, in both forms, and without a worker
nothing is. -/
theorem check_reports_shiftedWorld :
    shiftedWorld.parse.CountsIn32Bits ∧
      (∃ r text json, run (parseIgnoreFile shiftedWorld.files ["a.rb"]) shiftedWorld.parse
          shiftedWorld.files ["a.rb"] .default 1 = .ok r ∧ r.result.offenses ≠ [] ∧
        execute shiftedWorld ["check", "--format", "text", "a.rb"] = .ok text ∧
        execute shiftedWorld ["-v", "check", "--format", "json", "--jobs", "3", "a.rb"] =
          .ok json ∧
        Agree r.result text json) ∧
      ∃ message, ∀ parse, execute { shiftedWorld with parse } ["check", "--jobs", "0", "a.rb"] =
        .ok ⟨2, "", "error: " ++ message ++ "\n"⟩ := by
  have hparse : shiftedWorld.parse.CountsIn32Bits := by
    intro _
    show ∀ s ∈ shiftedCall.preorder [],
      s.label.start.row < 4294967296 ∧ s.label.start.byte < 4294967296
    decide
  have hwf := isWellFormed_shiftedWorld
  have hpath : shiftedWorld.pathOf "a.rb" = .ok ["a.rb"] :=
    pathOf_of_at? hwf (by decide +kernel) (by decide) rfl nofun
  have hread : shiftedWorld.files.read ["a.rb"] = .ok shiftedBytes :=
    FileSystem.read_of_at? hwf rfl
  have hroot := FileSystem.read_eq_ok_iff.1 hread
  have hfile : shiftedWorld.files.isFile ["a.rb"] = .ok true := FileSystem.isFile_iff.2 ⟨_, hroot⟩
  have hconfig : loadConfig shiftedWorld.files ["a.rb"] = .ok .default := by
    have hconfigFile : configFile shiftedWorld.files ["a.rb"] = .ok [configFileName] := by
      rw [configFile, configDirectory, hfile]
      rfl
    have hmissing : shiftedWorld.files.locate [configFileName] = .error .missing :=
      FileSystem.locate_missing (FileSystem.locate_nil _) (by decide) rfl
    rw [loadConfig, hconfigFile]
    dsimp only
    rw [Config.ofFile, FileSystem.isFile, hmissing]
  have hrun := run_eq_ok rfl (reports_file (parseIgnoreFile shiftedWorld.files ["a.rb"])
    shiftedWorld.parse .default hfile 1)
  obtain ⟨hagree, hrefused⟩ := check_reports shiftedWorld hparse ["a.rb"]
  obtain ⟨text, json, htext, hjson, hagree, -⟩ := hagree _ _ _ _ hroot hconfig hrun
    ["check", "--format", "text", "a.rb"] ["-v", "check", "--format", "json", "--jobs", "3", "a.rb"]
    false true none (some 3) ⟨"a.rb", rfl, hpath⟩ ⟨"a.rb", rfl, hpath⟩ (by simp) (by simp)
  refine ⟨hparse, ⟨_, text, json, hrun, ?_, htext, hjson, hagree⟩, ?_⟩
  · show sortReport ([inspectFile shiftedWorld.parse shiftedWorld.files ["a.rb"] "a.rb"].flatMap
      FileReport.offenses) ≠ []
    rw [List.flatMap_singleton, offenses_shiftedBytes rfl hread]
    exact fun h => by simpa [sortReport] using congrArg List.length h
  · exact hrefused _ false none (some 0) ⟨"a.rb", rfl, hpath⟩ (.jobs hroot hconfig rfl (by decide))

/-- A check for too few workers is not always refused: when the configuration file is no UTF-8, the
program fails before it looks at their number. -/
theorem not_all_fewWorkers_refused :
    ¬ ∀ w words verbose root format (n : Int), Asks w words verbose root format (some n) →
      (∃ entry, w.files.locate root = .ok entry) → n < 1 →
        ∃ err, execute w words = .ok ⟨2, "", err⟩ := by
  intro h
  have hasks : Asks shiftedWorld ["check", "--jobs", "0", "lib"] false ["lib"] none (some 0) :=
    ⟨"lib", rfl, pathOf_of_at? isWellFormed_shiftedWorld (by decide +kernel) (by decide) rfl nofun⟩
  obtain ⟨err, hexit⟩ := h _ _ _ _ _ _ hasks ⟨_, locate_shiftedWorld⟩ (by decide)
  have hfails : check shiftedWorld false ["lib"] none (some 0) = .error (.configFile .notUtf8) := by
    rw [check, locate_shiftedWorld]
    dsimp only
    rw [loadConfig_shiftedWorld]
    dsimp only
    rw [ConfigError.messageFor?, configFile_of_directory locate_shiftedWorld]
    rfl
  rw [execute_of_asks hasks, hfails] at hexit
  cases hexit

end CallAlign.CommandLine
