import CallAlign.Proofs.CheckReports
import CallAlign.Proofs.LongIntegers
import CallAlign.Proofs.StrictDecoding
import CallAlign.Proofs.ValidConfig

/-!
# Loading the configuration

A configuration file that holds a text gives a valid configuration, or an error that has a message
and ends a check with exit code 2.  The other errors have no message: the file cannot be looked for
or read, its bytes are not those of a text, or the text has an integer with too many digits
(`ConfigReadable`).

    configAnswered_ofBytes_iff     : what comes of the bytes of a file
    not_configAnswered_of_digits   : integers with too many digits
    configAnswered_ofFile_iff      : what comes of a file
    configAnswered_loadConfig_iff  : loading is answered when the file can be read
    loadConfig_answers             : the answer, and what a check makes of an error
-/

namespace CallAlign

/-! ## Definitions -/

/-- The error has a message. -/
def ConfigError.IsReported (e : ConfigError) : Prop :=
  e = .notToml ∨ ∃ reason, e = .rejected reason

/-- A configuration was read and is valid, or there is a message why it was not. -/
def ConfigAnswered (result : Except ConfigError Config) : Prop :=
  (∃ c, result = .ok c ∧ c.Valid) ∨ ∃ e, result = .error e ∧ e.IsReported

/-- The bytes are those of a text.  When it is read, no integer in it has too many digits. -/
def ConfigText (bytes : List UInt8) : Prop :=
  ∃ text, bytes = Utf8.encode text ∧ ∀ n, Toml.read text ≠ .error (.tooManyDigits n)

/-- A path leads to no name that is too long, and when it leads to a file, the file can be read as a
text. -/
structure HoldsConfigText (fs : FileSystem) (file : Path) : Prop where
  short : fs.locate file ≠ .error .nameTooLong
  isText : ∀ contents, fs.locate file = .ok (.file contents) →
    ∃ bytes, contents = some bytes ∧ ConfigText bytes

/-- The configuration file of a path can be looked for.  It is missing, or it can be read as a
text. -/
def ConfigReadable (fs : FileSystem) (path : Path) : Prop :=
  ∃ file, configFile fs path = .ok file ∧ HoldsConfigText fs file

/-- The message says that a configuration file breaks the rules of its language, or that it holds
no configuration. -/
def RejectsFile (file : Path) (message : String) : Prop :=
  ∃ what ∈ ["TOML", "config"], ∃ reason,
    message = "Invalid " ++ what ++ " in " ++ file.text ++ ": " ++ reason

/-! ## Loading -/

theorem configAnswered_ok_iff {c : Config} : ConfigAnswered (.ok c) ↔ c.Valid := by
  simp [ConfigAnswered]

theorem configAnswered_error_iff {e : ConfigError} : ConfigAnswered (.error e) ↔ e.IsReported := by
  simp [ConfigAnswered]

/-- The text of a file is answered with a configuration or a message; other bytes are not. -/
theorem configAnswered_ofBytes_iff {bytes : List UInt8} :
    ConfigAnswered (Config.ofBytes bytes) ↔ ConfigText bytes := by
  unfold Config.ofBytes ConfigText
  split
  · next hbytes =>
    have hnotext := Utf8.decode?_eq_none_iff.1 hbytes
    simp [configAnswered_error_iff, ConfigError.IsReported, hnotext]
  · next text hbytes =>
    have htext := Utf8.decode?_eq_some_iff.1 hbytes
    split
    · next hread =>
      refine iff_of_true (configAnswered_error_iff.2 (.inl rfl)) ⟨text, htext, ?_⟩
      simp [hread]
    · next n hread =>
      refine iff_of_false (by simp [configAnswered_error_iff, ConfigError.IsReported]) ?_
      rintro ⟨other, hother, hshort⟩
      cases hbytes.symm.trans (Utf8.decode?_eq_some_iff.2 hother)
      exact hshort n hread
    · next v hread =>
      refine iff_of_true ?_ ⟨text, htext, by simp [hread]⟩
      split
      · next c hc => exact configAnswered_ok_iff.2 (valid_of_ofValue hc)
      · next reason _ => exact configAnswered_error_iff.2 (.inr ⟨reason, rfl⟩)

/-- No key can be given an integer that has too many digits. -/
theorem not_configAnswered_of_digits {key digits : List Char} (hne : key ≠ [])
    (hbare : ∀ c ∈ key, Toml.isBareKeyChar c = true) (hdigits : ∀ c ∈ digits, c.isDigit = true)
    (hzero : digits.head? ≠ some '0') (hmany : Text.digitLimit < digits.length) :
    ¬ ConfigAnswered (Config.ofBytes (Utf8.encode (key ++ '=' :: digits))) := by
  rw [configAnswered_ofBytes_iff]
  rintro ⟨text, htext, hshort⟩
  have hdecode := Utf8.decode?_eq_some_iff.2 htext
  rw [Utf8.decode?_encode] at hdecode
  cases hdecode
  exact hshort _ (Toml.read_of_digits hne hbare hdigits hzero hmany)

/-- A file is answered exactly when it can be read as a text. -/
theorem configAnswered_ofFile_iff {fs : FileSystem} {file : Path} :
    ConfigAnswered (Config.ofFile fs file) ↔ HoldsConfigText fs file := by
  unfold Config.ofFile
  split
  · next e hfile =>
    obtain ⟨rfl, hlong⟩ := FileSystem.isFile_eq_error_iff.1 hfile
    exact iff_of_false (by simp [configAnswered_error_iff, ConfigError.IsReported])
      fun h => h.short hlong
  · next hfile =>
    refine iff_of_true (configAnswered_ok_iff.2 Config.valid_default) ⟨fun hlong => ?_, ?_⟩
    · cases hfile.symm.trans (FileSystem.isFile_eq_error_iff.2 ⟨rfl, hlong⟩)
    · intro contents hlocate
      cases hfile.symm.trans (FileSystem.isFile_iff.2 ⟨contents, hlocate⟩)
  · next hfile =>
    obtain ⟨contents, hlocate⟩ := FileSystem.isFile_iff.1 hfile
    unfold FileSystem.read
    rw [hlocate]
    cases contents with
    | none =>
      refine iff_of_false (by simp [configAnswered_error_iff, ConfigError.IsReported]) fun h => ?_
      obtain ⟨bytes, hbytes, -⟩ := h.isText _ hlocate
      cases hbytes
    | some bytes =>
      refine configAnswered_ofBytes_iff.trans ⟨fun h => ⟨by simp [hlocate], ?_⟩, fun h => ?_⟩
      · intro contents hcontents
        cases hlocate.symm.trans hcontents
        exact ⟨bytes, rfl, h⟩
      · obtain ⟨other, hother, h⟩ := h.isText _ hlocate
        cases hother
        exact h

/-- Loading is answered exactly when the configuration file can be read. -/
theorem configAnswered_loadConfig_iff {fs : FileSystem} {path : Path} :
    ConfigAnswered (loadConfig fs path) ↔ ConfigReadable fs path := by
  unfold loadConfig ConfigReadable
  split
  · next e hfile =>
    refine iff_of_false (by simp [configAnswered_error_iff, ConfigError.IsReported]) ?_
    rintro ⟨file, hok, -⟩
    cases hfile.symm.trans hok
  · next file hfile =>
    rw [configAnswered_ofFile_iff]
    constructor
    · intro h
      exact ⟨file, hfile, h⟩
    · rintro ⟨other, hother, h⟩
      cases hfile.symm.trans hother
      exact h

/-! ## Checks -/

theorem ConfigError.IsReported.exists_message {e : ConfigError} (h : e.IsReported)
    (details : ConfigError → String) (file : Path) :
    ∃ message, e.message? details file = some message ∧ RejectsFile file message := by
  rcases h with rfl | ⟨reason, rfl⟩
  · exact ⟨_, rfl, "TOML", by simp, _, rfl⟩
  · cases reason with
    | patternsNotList => exact ⟨_, rfl, "config", by simp, _, rfl⟩
    | issues issues => exact ⟨_, rfl, "config", by simp, _, rfl⟩

namespace CommandLine

theorem check_of_message {w : World} {root : Path} {entry : Entry} {e : ConfigError}
    {message : String} (hroot : w.files.locate root = .ok entry)
    (hconfig : loadConfig w.files root = .error e)
    (hmessage : e.messageFor? w.details w.files root = some message) (verbose : Bool)
    (format : Option ReportFormat) (jobs : Option Int) :
    check w verbose root format jobs = .ok (.refusal message) := by
  rw [check, hroot]
  dsimp only
  rw [hconfig]
  dsimp only
  rw [hmessage]

/-! ## Top theorem -/

/-- A configuration file that can be read gives a valid configuration or an error with a message;
one that cannot be read gives neither.  A check of a root that exists ends with exit code 2 and the
message, whatever is asked for besides.  A file that cannot be read for an integer with too many
digits has that many digits in a row. -/
theorem loadConfig_answers (w : World) (root : Path) :
    (ConfigAnswered (loadConfig w.files root) ↔ ConfigReadable w.files root) ∧
      (∀ entry e words verbose format jobs, ConfigReadable w.files root →
        w.files.locate root = .ok entry → loadConfig w.files root = .error e →
        Asks w words verbose root format jobs →
        ∃ file message, configFile w.files root = .ok file ∧ RejectsFile file message ∧
          execute w words = .ok ⟨2, "", "error: " ++ message ++ "\n"⟩) ∧
      ∀ text n, Toml.read text = .error (.tooManyDigits n) → 4300 < n ∧ Toml.HasDigits text n := by
  refine ⟨configAnswered_loadConfig_iff, ?_, fun text n => Toml.hasDigits_of_read⟩
  intro entry e words verbose format jobs hreadable hroot hconfig hasks
  have hreported : e.IsReported := by
    rw [← configAnswered_error_iff, ← hconfig]
    exact configAnswered_loadConfig_iff.2 hreadable
  obtain ⟨file, hfile, -⟩ := hreadable
  obtain ⟨message, hmessage, hrejects⟩ := hreported.exists_message w.details file
  have hmessageFor : e.messageFor? w.details w.files root = some message := by
    rw [ConfigError.messageFor?, hfile]
    exact hmessage
  refine ⟨file, message, hfile, hrejects, ?_⟩
  rw [execute_of_asks hasks]
  exact check_of_message hroot hconfig hmessageFor verbose format jobs

/-- A directory whose configuration file asks for no worker. -/
def idleWorld : World :=
  { files := ⟨.directory
      [("lib", .directory [(configFileName, .file (some "jobs = 0".toUTF8.toList))])]⟩
    current := []
    home := []
    parse := fun _ => ⟨.node "program" ⟨⟨0, 0⟩, ⟨0, 0⟩⟩ [] [], false⟩
    details := ConfigError.details }

/-- The configuration file of `idleWorld` is rejected, and the number of workers on the command line
does not help. -/
theorem loadConfig_answers_idleWorld :
    ConfigReadable idleWorld.files ["lib"] ∧
      (∃ entry, idleWorld.files.locate ["lib"] = .ok entry) ∧
      (∃ e, loadConfig idleWorld.files ["lib"] = .error e) ∧
      Asks idleWorld ["check", "--jobs", "4", "lib"] false ["lib"] none (some 4) ∧
      ∃ message, RejectsFile ["lib", configFileName] message ∧
        execute idleWorld ["check", "--jobs", "4", "lib"] =
          .ok ⟨2, "", "error: " ++ message ++ "\n"⟩ := by
  have hwf : idleWorld.files.root.isWellFormed = true := by decide
  have hroot : idleWorld.files.locate ["lib"] =
      .ok (.directory [(configFileName, .file (some "jobs = 0".toUTF8.toList))]) :=
    FileSystem.locate_of_at? hwf rfl nofun
  have hfile : configFile idleWorld.files ["lib"] = .ok ["lib", configFileName] :=
    configFile_of_directory hroot
  have hload : loadConfig idleWorld.files ["lib"] =
      .error (.rejected (.issues [⟨["jobs"], .below 1⟩])) := by
    rw [loadConfig_of_read hfile (FileSystem.read_of_at? hwf rfl)]
    decide +kernel
  have hasks : Asks idleWorld ["check", "--jobs", "4", "lib"] false ["lib"] none (some 4) :=
    ⟨"lib", rfl, pathOf_of_at? hwf (by decide +kernel) (by decide) rfl nofun⟩
  obtain ⟨hreadable, hcheck, -⟩ := loadConfig_answers idleWorld ["lib"]
  have hreadable := hreadable.1 (.inr ⟨_, hload, .inr ⟨_, rfl⟩⟩)
  obtain ⟨file, message, hok, hexit⟩ := hcheck _ _ _ _ _ _ hreadable hroot hload hasks
  cases hfile.symm.trans hok
  exact ⟨hreadable, ⟨_, hroot⟩, ⟨_, hload⟩, hasks, message, hexit⟩

/-- Not every configuration file is answered: bytes that are no UTF-8 make the program fail without
a message. -/
theorem not_all_configFiles_answered :
    ¬ ∀ (w : World) (root : Path), ConfigAnswered (loadConfig w.files root) := by
  intro h
  have hanswered := h shiftedWorld ["lib"]
  rw [loadConfig_shiftedWorld, configAnswered_error_iff] at hanswered
  rcases hanswered with hmissing | ⟨reason, hreason⟩
  · cases hmissing
  · cases hreason

end CommandLine

end CallAlign
