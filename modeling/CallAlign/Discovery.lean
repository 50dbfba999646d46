import CallAlign.FileSystem
import CallAlign.IgnoreRules
import CallAlign.Offense
import CallAlign.Selection

/-!
# Discovery of files

The files below a directory that a run takes.  A directory whose name begins with a dot, a link,
and what an ignore file leaves out are passed over with all below them; of the files that remain
the configuration selects some.  The ignore file of the directory itself always counts, those
further down only when the configuration asks for it, each for what lies below its own directory.

`Search` says what a walk asks, so that the walk is about any tests of paths; `discover` is the
search with ignore files.  Whoever searches says how ignore files are read (`IgnoreReader`):
`parseIgnoreFile` reads them as rules.

    walkFrom_cons       : a walk visits the next directory and goes on with those found there
    isHidden_eq_false_iff : which names are not hidden
    pairwise_sortPaths  : the files come in the order of their paths, by code points
-/

namespace CallAlign

/-! ## Searching a tree -/

/-- A test that leaves paths out.  It may fail. -/
abbrev PathTest (ε : Type) := Path → Except ε Bool

/-- What a walk asks; all paths begin below the directory that is searched.  `testAt` gives the test
that a directory makes on the paths below it, if it makes one. -/
structure Search (ε : Type) where
  testAt : Path → Except ε (Option (PathTest ε))
  nested : Bool
  selects : String → Bool

/-- A directory that is still to be visited: its path and what it holds. -/
abbrev Pending := Path × List (String × Entry)

/-- The tests made so far, for each directory that is still to be visited. -/
abbrev TestTable (ε : Type) := List (Path × List (PathTest ε))

/-- What a visit of a directory gives: the tests for what lies below it, the directories to visit
next and the selected files. -/
structure Visit (ε : Type) where
  tests : List (PathTest ε)
  directories : List (String × List (String × Entry))
  files : List Path

/-- Some test leaves a path out.  The first that does ends the question. -/
def leftOut {ε : Type} : List (PathTest ε) → Path → Except ε Bool
  | [], _ => .ok false
  | test :: tests, path => do
    if ← test path then return true else leftOut tests path

/-- The entries of a directory that no test leaves out. -/
def remaining {ε α : Type} (tests : List (PathTest ε)) (here : Path) :
    List (String × α) → Except ε (List (String × α))
  | [] => .ok []
  | entry :: rest => do
    if ← leftOut tests (here ++ [entry.1]) then remaining tests here rest
    else return entry :: (← remaining tests here rest)

/-- Entries in the order of their names. -/
def sortByName {α : Type} (entries : List (String × α)) : List (String × α) :=
  entries.mergeSort fun a b => codePointLE a.1.toList b.1.toList

/-- A file, and no link to one. -/
def Entry.isFile : Entry → Bool
  | .file _ => true
  | _ => false

/-- A name that keeps a directory from being searched. -/
def isHidden (name : String) : Bool := name.toList.head? == some '.'

/-- The directories among some entries that are not hidden. -/
def openDirectories : List (String × Entry) → List (String × List (String × Entry))
  | [] => []
  | (name, .directory inner) :: rest =>
    if isHidden name then openDirectories rest else (name, inner) :: openDirectories rest
  | _ :: rest => openDirectories rest

namespace Visit

variable {ε : Type} (v : Visit ε) (here : Path)

def pending : List Pending := v.directories.map fun d => (here ++ [d.1], d.2)

/-- The table after the visit: the directories to visit next come in, and the one visited goes. -/
def table (kept : TestTable ε) : TestTable ε :=
  (v.pending here).map (fun d => (d.1, v.tests)) ++ kept.filter (·.1 != here)

end Visit

namespace Search

variable {ε : Type} (s : Search ε)

/-- The tests for what lies below a directory.  The directory that is searched has made its test
before. -/
def testsAt (inherited : List (PathTest ε)) (here : Path) : Except ε (List (PathTest ε)) :=
  if s.nested && !here.isEmpty then do
    return inherited ++ (← s.testAt here).toList
  else .ok inherited

/-- The selected ones of some files. -/
def selected (here : Path) (files : List (String × Entry)) : List Path :=
  (files.map fun entry => here ++ [entry.1]).filter fun path => s.selects path.relativeText

/-- Asks about the directories in a directory, in the order of their names, then about its files. -/
def visit (inherited : List (PathTest ε)) (here : Path) (entries : List (String × Entry)) :
    Except ε (Visit ε) := do
  let tests ← s.testsAt inherited here
  let directories ← remaining tests here (sortByName (openDirectories entries))
  let files ← remaining tests here (entries.filter (·.2.isFile))
  return { tests, directories, files := s.selected here files }

end Search

/-! ## Sizes -/

/-- The number of some directories and of those below them.  Every visit makes it smaller. -/
def weight {κ : Type} : List (κ × List (String × Entry)) → Nat
  | [] => 0
  | d :: ds => Entry.directoryCountAll d.2 + 1 + weight ds

theorem weight_append {κ : Type} (ds es : List (κ × List (String × Entry))) :
    weight (ds ++ es) = weight ds + weight es := by
  induction ds with
  | nil => simp [weight]
  | cons d ds ih => simp only [List.cons_append, weight, ih]; omega

theorem weight_pending {ε : Type} (v : Visit ε) (here : Path) :
    weight (v.pending here) = weight v.directories := by
  unfold Visit.pending
  induction v.directories with
  | nil => rfl
  | cons d ds ih => simp only [List.map_cons, weight, ih]

theorem weight_le_of_sublist {κ : Type} {ds es : List (κ × List (String × Entry))}
    (h : ds.Sublist es) : weight ds ≤ weight es := by
  induction h with
  | slnil => exact Nat.le_refl _
  | cons d _ ih => simp only [weight]; omega
  | cons_cons d _ ih => simp only [weight]; omega

theorem weight_perm {κ : Type} {ds es : List (κ × List (String × Entry))} (h : ds.Perm es) :
    weight ds = weight es := by
  induction h with
  | nil => rfl
  | cons d _ ih => simp only [weight, ih]
  | swap d e ds => simp only [weight]; omega
  | trans _ _ ih₁ ih₂ => exact ih₁.trans ih₂

theorem weight_openDirectories_le (entries : List (String × Entry)) :
    weight (openDirectories entries) ≤ Entry.directoryCountAll entries := by
  fun_induction openDirectories entries with
  | case1 => exact Nat.le_refl _
  | case2 name inner rest hhidden ih =>
    simp only [Entry.directoryCountAll, Entry.directoryCount]
    omega
  | case3 name inner rest hhidden ih =>
    simp only [weight, Entry.directoryCountAll, Entry.directoryCount]
    omega
  | case4 entry rest hfile ih =>
    simp only [Entry.directoryCountAll]
    omega

theorem sortByName_perm {α : Type} (entries : List (String × α)) :
    (sortByName entries).Perm entries :=
  List.mergeSort_perm _ _

/-- Steps in a row succeed when each of them does. -/
theorem bind_eq_ok {ε α β : Type} {x : Except ε α} {f : α → Except ε β} {b : β} :
    x >>= f = .ok b ↔ ∃ a, x = .ok a ∧ f a = .ok b := by
  cases x with
  | error e => simp [bind, Except.bind]
  | ok a => simp [bind, Except.bind]

/-- Steps in a row fail when one of them does. -/
theorem bind_eq_error {ε α β : Type} {x : Except ε α} {f : α → Except ε β} {e : ε} :
    x >>= f = .error e ↔ x = .error e ∨ ∃ a, x = .ok a ∧ f a = .error e := by
  cases x with
  | error e' => simp [bind, Except.bind]
  | ok a => simp [bind, Except.bind]

/-- What remains of some entries, by what the tests say of the first one. -/
theorem remaining_cons_ok {ε α : Type} {tests : List (PathTest ε)} {here : Path}
    {entry : String × α} {rest kept : List (String × α)}
    (h : remaining tests here (entry :: rest) = .ok kept) :
    ∃ more, remaining tests here rest = .ok more ∧
      (leftOut tests (here ++ [entry.1]) = .ok true ∧ kept = more ∨
        leftOut tests (here ++ [entry.1]) = .ok false ∧ kept = entry :: more) := by
  rw [remaining] at h
  obtain ⟨out, hout, h⟩ := bind_eq_ok.1 h
  cases out with
  | true => exact ⟨kept, h, .inl ⟨hout, rfl⟩⟩
  | false =>
    obtain ⟨more, hmore, h⟩ := bind_eq_ok.1 h
    cases h
    exact ⟨more, hmore, .inr ⟨hout, rfl⟩⟩

/-- Tests take entries out and leave the others in their order. -/
theorem sublist_of_remaining {ε α : Type} {tests : List (PathTest ε)} {here : Path}
    {entries kept : List (String × α)} (h : remaining tests here entries = .ok kept) :
    kept.Sublist entries := by
  induction entries generalizing kept with
  | nil => cases h; exact .slnil
  | cons entry rest ih =>
    obtain ⟨more, hmore, ⟨_, rfl⟩ | ⟨_, rfl⟩⟩ := remaining_cons_ok h
    · exact (ih hmore).cons entry
    · exact (ih hmore).cons_cons entry

namespace Search

variable {ε : Type} {s : Search ε}

/-- A visit, by what it asks. -/
theorem visit_eq_ok {inherited : List (PathTest ε)} {here : Path}
    {entries : List (String × Entry)} {v : Visit ε} (h : s.visit inherited here entries = .ok v) :
    s.testsAt inherited here = .ok v.tests ∧
      remaining v.tests here (sortByName (openDirectories entries)) = .ok v.directories ∧
      ∃ files, remaining v.tests here (entries.filter (·.2.isFile)) = .ok files ∧
        v.files = s.selected here files := by
  unfold visit at h
  obtain ⟨tests, htests, h⟩ := bind_eq_ok.1 h
  obtain ⟨directories, hdirs, h⟩ := bind_eq_ok.1 h
  obtain ⟨files, hfiles, h⟩ := bind_eq_ok.1 h
  cases h
  exact ⟨htests, hdirs, files, hfiles, rfl⟩

theorem weight_lt_of_visit {inherited : List (PathTest ε)} {here : Path}
    {entries : List (String × Entry)} {v : Visit ε} (h : s.visit inherited here entries = .ok v)
    (later : List Pending) :
    weight (v.pending here ++ later) < weight ((here, entries) :: later) := by
  have hsub := weight_le_of_sublist (sublist_of_remaining (visit_eq_ok h).2.1)
  rw [weight_perm (sortByName_perm _)] at hsub
  have hopen := weight_openDirectories_le entries
  rw [weight_append, weight_pending, weight]
  dsimp only
  omega

/-! ## The walk -/

variable (s)

/-- Visits the directories that are pending, each with the tests that the table keeps for it, and
those found on the way.  The result is `none` when the table keeps none for one of them. -/
def walkFrom (pending : List Pending) (kept : TestTable ε) : Except ε (Option (List Path)) :=
  match pending with
  | [] => .ok (some [])
  | (here, entries) :: later =>
    match kept.lookup here with
    | none => .ok none
    | some inherited =>
      match h : s.visit inherited here entries with
      | .error e => .error e
      | .ok v => do
        have := weight_lt_of_visit h later
        let found ← walkFrom (v.pending here ++ later) (v.table here kept)
        return found.map (v.files ++ ·)
termination_by weight pending

/-- The selected files below a directory with these entries. -/
def walk (entries : List (String × Entry)) : Except ε (Option (List Path)) := do
  let first ← s.testAt []
  s.walkFrom [([], entries)] [([], first.toList)]

theorem walkFrom_nil (kept : TestTable ε) : s.walkFrom [] kept = .ok (some []) := by
  rw [walkFrom]

/-- A walk visits the next directory and goes on with those found there. -/
theorem walkFrom_cons (here : Path) (entries : List (String × Entry)) (later : List Pending)
    (kept : TestTable ε) :
    s.walkFrom ((here, entries) :: later) kept =
      match kept.lookup here with
      | none => .ok none
      | some inherited => do
        let v ← s.visit inherited here entries
        let found ← s.walkFrom (v.pending here ++ later) (v.table here kept)
        return found.map (v.files ++ ·) := by
  rw [walkFrom]
  cases kept.lookup here with
  | none => rfl
  | some inherited =>
    dsimp only
    split
    · next e h => rw [h]; rfl
    · next v h => rw [h]; rfl

end Search

/-! ## Ignore files -/

def ignoreFileName : String := ".gitignore"

/-- How ignore files are read: the test that the file of a directory makes.  The directory and the
paths that are tested begin below the one that is searched. -/
abbrev IgnoreReader (ε : Type) := Path → Except ε (PathTest ε)

/-- Why a search fails: a path cannot be looked up, or an ignore file cannot be used. -/
inductive SearchError (ε : Type) where
  | lookup (e : ReadError)
  | ignoreFile (e : ε)
  deriving DecidableEq, Repr

/-- The test of an ignore file, with its errors as those of a search. -/
def PathTest.lift {ε : Type} (test : PathTest ε) : PathTest (SearchError ε) :=
  fun path => (test path).mapError .ignoreFile

/-- The test that the ignore file of a directory makes, if there is one. -/
def ignoreTest {ε : Type} (ignore : IgnoreReader ε) (fs : FileSystem) (root dir : Path) :
    Except (SearchError ε) (Option (PathTest (SearchError ε))) :=
  match fs.isFile (root ++ dir ++ [ignoreFileName]) with
  | .error e => .error (.lookup e)
  | .ok false => .ok none
  | .ok true =>
    match ignore dir with
    | .error e => .error (.ignoreFile e)
    | .ok test => .ok (some test.lift)

/-- Reads ignore files as rules.  They are asked about what lies below the directory of their file
by its path from there. -/
def parseIgnoreFile (fs : FileSystem) (root : Path) : IgnoreReader IgnoreError := fun dir =>
  match fs.read (root ++ dir ++ [ignoreFileName]) with
  | .error _ => .error .unreadable
  | .ok bytes => do
    let rules ← IgnoreRules.ofBytes bytes
    return fun path => IgnoreRules.ignores rules (Path.relativeText (path.drop dir.length)).toList

/-- The search that a configuration asks for, with the tests that directories make. -/
def Config.search {ε : Type} (config : Config) (testAt : Path → Except ε (Option (PathTest ε))) :
    Search ε :=
  { testAt, nested := config.nestedGitignore, selects := config.selects }

/-- The order of paths by their texts. -/
def Path.textLE (p q : Path) : Bool := codePointLE p.relativeText.toList q.relativeText.toList

/-- Paths in the order of their texts. -/
def sortPaths (paths : List Path) : List Path := paths.mergeSort Path.textLE

/-- The paths of the files below a directory that a configuration takes, from that directory down,
but for those that ignore files leave out.  What is no directory has none; its ignore file is looked
for all the same. -/
def discover {ε : Type} (ignore : IgnoreReader ε) (fs : FileSystem) (root : Path)
    (config : Config) : Except (SearchError ε) (List Path) :=
  let testAt := ignoreTest ignore fs root
  match fs.locate root with
  | .ok (.directory entries) => do
    let found ← (config.search testAt).walk entries
    return sortPaths (found.getD [])
  | _ => (testAt []).map fun _ => []

/-! ## Lemmas -/

theorem isHidden_eq_false_iff (name : String) :
    isHidden name = false ↔ name.toList.head? ≠ some '.' := by
  simp [isHidden]

theorem sortPaths_perm (paths : List Path) : (sortPaths paths).Perm paths :=
  List.mergeSort_perm _ _

theorem textLE_total (p q : Path) : (p.textLE q || q.textLE p) = true :=
  codePointLE_total p.relativeText.toList q.relativeText.toList

theorem textLE_trans (p q r : Path) (hpq : p.textLE q = true) (hqr : q.textLE r = true) :
    p.textLE r = true :=
  codePointLE_trans p.relativeText.toList q.relativeText.toList r.relativeText.toList hpq hqr

theorem pairwise_sortPaths (paths : List Path) :
    (sortPaths paths).Pairwise fun p q => p.textLE q = true :=
  List.pairwise_mergeSort textLE_trans textLE_total paths

end CallAlign
