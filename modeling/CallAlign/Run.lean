import CallAlign.ConfigFile
import CallAlign.Discovery
import CallAlign.Inspection
import CallAlign.Report

/-!
# Runs

A run inspects one file, or the files below a directory that the configuration takes.  The work may
be handed out to several workers in batches; what they report is put together in the order of the
files, so their number does not show.

`run` is told its configuration and the number of workers; `runRequested` finds out what it is not
told.

    inBatches_eq_map : handing out in batches gives what one worker gives
-/

namespace CallAlign

/-! ## Batches -/

/-- A list in pieces of `n + 1` elements. -/
def batches {α : Type} (n : Nat) (xs : List α) : List (List α) :=
  match xs with
  | [] => []
  | x :: rest => (x :: rest.take n) :: batches n (rest.drop n)
termination_by xs.length
decreasing_by simp only [List.length_drop, List.length_cons]; omega

/-- The results of a task for each element.  More than one worker gets eight elements at a time.
The workers are taken to start, however many they are. -/
def inBatches {α β : Type} (jobs : Int) (task : α → β) (xs : List α) : List β :=
  if jobs ≤ 1 || xs.length ≤ 1 then xs.map task
  else (batches 7 xs).flatMap fun batch => batch.map task

/-! ## Running -/

/-- What a run found and what it logs. -/
structure Run where
  result : RunResult
  log : List LogRecord
  deriving DecidableEq, Repr

/-- The result that some reports make. -/
def RunResult.ofReports (reports : List FileReport) : RunResult :=
  { offenses := sortReport (reports.flatMap FileReport.offenses)
    inspected := (reports.filter (·.error?.isNone)).map (·.path)
    skipped := (reports.filter (·.error?.isSome)).map (·.path) }

def disabledRecord : LogRecord :=
  { level := .info, logger := "cops.runner",
    message := "Parameter alignment cop disabled by configuration" }

/-- Why a run fails that may have to load its configuration. -/
inductive RunError (ε : Type) where
  | config (e : ConfigError)
  | search (e : SearchError ε)
  deriving DecidableEq, Repr

section

variable {ε : Type} (ignore : IgnoreReader ε) (parse : Parser) (fs : FileSystem) (root : Path)

/-- The files that a run inspects, each with the name it has in reports. -/
def targets (config : Config) : Except (SearchError ε) (List (Path × String)) :=
  match fs.isFile root with
  | .error e => .error (.lookup e)
  | .ok true => .ok [(root, root.getLastD "")]
  | .ok false => do
    let paths ← discover ignore fs root config
    return paths.map fun path => (root ++ path, path.relativeText)

/-- The reports of a run's files, in the order of their paths. -/
def reports (config : Config) (jobs : Int) : Except (SearchError ε) (List FileReport) := do
  let files ← targets ignore fs root config
  return inBatches jobs (fun file => inspectFile parse fs file.1 file.2) files

/-- A run over a file or a directory.  `jobs` is the number of workers. -/
def run (config : Config) (jobs : Int) : Except (SearchError ε) Run :=
  if config.enabled then do
    let reports ← reports ignore parse fs root config jobs
    return { result := .ofReports reports, log := reports.flatMap FileReport.log }
  else .ok { result := .empty, log := [disabledRecord] }

/-- A run as it is asked for.  Without a configuration that of the configuration file counts,
without a number of workers that of the configuration. -/
def runRequested (config : Option Config) (jobs : Option Int) : Except (RunError ε) Run := do
  let config ←
    match config with
    | some config => .ok config
    | none => (loadConfig fs root).mapError .config
  (run ignore parse fs root config (jobs.getD config.jobs)).mapError .search

end

/-! ## Lemmas -/

theorem flatten_batches {α : Type} (n : Nat) (xs : List α) : (batches n xs).flatten = xs := by
  fun_induction batches n xs with
  | case1 => rfl
  | case2 x rest ih => simp [ih]

/-- Handing out in batches gives what one worker gives. -/
theorem inBatches_eq_map {α β : Type} (jobs : Int) (task : α → β) (xs : List α) :
    inBatches jobs task xs = xs.map task := by
  unfold inBatches
  split
  · rfl
  · rw [← List.map_flatten.symm.trans (congrArg (List.map task) (flatten_batches 7 xs)),
      List.flatMap_def]

end CallAlign
