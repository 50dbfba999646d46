import CallAlign.Proofs.PathOrder

/-!
# The files that a search finds

A search walks a tree with a list of directories that are still to be visited and a table of the
tests that each of them has inherited.  What it finds is what a reader of the tree would filter out
of it with the tests of all directories above a file.

The walk keeps its pending directories apart, none above another (`Ready`): a visit puts the
directories inside the one visited into its place.  So the table has one entry for each of them,
which nobody else overwrites or takes out (`lookup_table`), and no file is met twice.

    walkFrom_spec     : what a walk finds, when no test fails
    discover_ok       : what is discovered, when no test fails
    discover_eq_error : when the test of the directory itself cannot be made, nothing is
-/

namespace CallAlign

/-! ## What a search keeps -/

/-- The path leads from the directory `here` to a selected file, through directories that are not
hidden, and no test leaves it out on the way. -/
inductive Search.Keeps {ε : Type} (s : Search ε) :
    List (PathTest ε) → Path → List (String × Entry) → Path → Prop where
  | file {inherited tests : List (PathTest ε)} {here : Path} {entries : List (String × Entry)}
      {name : String} {contents : Option (List UInt8)} :
      s.testsAt inherited here = .ok tests → (name, .file contents) ∈ entries →
      leftOut tests (here ++ [name]) = .ok false →
      s.selects (Path.relativeText (here ++ [name])) = true →
      s.Keeps inherited here entries (here ++ [name])
  | directory {inherited tests : List (PathTest ε)} {here : Path}
      {entries inner : List (String × Entry)} {name : String} {path : Path} :
      s.testsAt inherited here = .ok tests → (name, .directory inner) ∈ entries →
      isHidden name = false → leftOut tests (here ++ [name]) = .ok false →
      s.Keeps tests (here ++ [name]) inner path → s.Keeps inherited here entries path

/-- What is kept is a file below the directory. -/
theorem Search.Keeps.exists_file {ε : Type} {s : Search ε} {inherited : List (PathTest ε)}
    {here path : Path} {entries : List (String × Entry)}
    (h : s.Keeps inherited here entries path)
    (hwf : (Entry.directory entries).isWellFormed = true) :
    ∃ name rest contents, path = here ++ name :: rest ∧
      (Entry.directory entries).at? (name :: rest) = some (.file contents) := by
  induction h with
  | @file _ _ here _ name contents _ hmem _ _ =>
    exact ⟨name, [], contents, rfl, Entry.at?_cons_of_mem hwf hmem []⟩
  | @directory _ _ here _ _ name _ _ hmem _ _ _ ih =>
    obtain ⟨next, rest, contents, rfl, hat⟩ := ih (Entry.isWellFormed_of_mem hwf hmem).2
    refine ⟨name, next :: rest, contents, by simp, ?_⟩
    rw [Entry.at?_cons_of_mem hwf hmem, hat]

/-! ## One visit -/

section Members

variable {α : Type} {p : α → Prop} {x first : α} {rest : List α}

theorem mem_cons_and_of_not (h : ¬ p first) : x ∈ first :: rest ∧ p x ↔ x ∈ rest ∧ p x := by
  rw [List.mem_cons]
  constructor
  · rintro ⟨rfl | hmem, hp⟩
    · exact absurd hp h
    · exact ⟨hmem, hp⟩
  · rintro ⟨hmem, hp⟩
    exact ⟨.inr hmem, hp⟩

theorem mem_cons_and_of (h : p first) :
    x ∈ first :: rest ∧ p x ↔ x = first ∨ x ∈ rest ∧ p x := by
  rw [List.mem_cons]
  constructor
  · rintro ⟨rfl | hmem, hp⟩
    · exact .inl rfl
    · exact .inr ⟨hmem, hp⟩
  · rintro (rfl | ⟨hmem, hp⟩)
    · exact ⟨.inl rfl, h⟩
    · exact ⟨.inr hmem, hp⟩

end Members

theorem mem_remaining {ε α : Type} {tests : List (PathTest ε)} {here : Path}
    {entries kept : List (String × α)} (h : remaining tests here entries = .ok kept)
    (entry : String × α) :
    entry ∈ kept ↔ entry ∈ entries ∧ leftOut tests (here ++ [entry.1]) = .ok false := by
  let stays (entry : String × α) : Prop := leftOut tests (here ++ [entry.1]) = .ok false
  show entry ∈ kept ↔ entry ∈ entries ∧ stays entry
  induction entries generalizing kept with
  | nil => cases h; simp
  | cons first rest ih =>
    obtain ⟨more, hmore, ⟨hout, rfl⟩ | ⟨hin, rfl⟩⟩ := remaining_cons_ok h
    · have hgoes : ¬ stays first := by
        intro hstays
        cases hout.symm.trans hstays
      rw [ih hmore, mem_cons_and_of_not hgoes]
    · rw [List.mem_cons, ih hmore, mem_cons_and_of (p := stays) hin]

theorem mem_openDirectories (entries : List (String × Entry)) (name : String)
    (inner : List (String × Entry)) :
    (name, inner) ∈ openDirectories entries ↔
      (name, .directory inner) ∈ entries ∧ isHidden name = false := by
  let isOpen (entry : String × Entry) : Prop := isHidden entry.1 = false
  show (name, inner) ∈ openDirectories entries ↔
    (name, .directory inner) ∈ entries ∧ isOpen (name, .directory inner)
  fun_induction openDirectories entries with
  | case1 => simp
  | case2 other inner' rest hhidden ih =>
    have hclosed : ¬ isOpen (other, .directory inner') := by simp [isOpen, hhidden]
    rw [ih, mem_cons_and_of_not hclosed]
  | case3 other inner' rest hhidden ih =>
    have hopen : isOpen (other, .directory inner') := by simpa using hhidden
    rw [List.mem_cons, ih, mem_cons_and_of hopen, Prod.mk.injEq, Prod.mk.injEq,
      Entry.directory.injEq]
  | case4 entry rest hfile ih =>
    have hne : (name, .directory inner) ≠ entry := fun heq => hfile name inner heq.symm
    rw [ih, List.mem_cons, or_iff_right hne]

theorem names_openDirectories (entries : List (String × Entry)) :
    ((openDirectories entries).map (·.1)).Sublist (entries.map (·.1)) := by
  fun_induction openDirectories entries with
  | case1 => exact .slnil
  | case2 name inner rest hhidden ih => exact ih.cons name
  | case3 name inner rest hhidden ih => exact ih.cons_cons name
  | case4 entry rest hfile ih => exact ih.cons entry.1

theorem remaining_of_noTests {ε α : Type} (here : Path) (entries : List (String × α)) :
    remaining ([] : List (PathTest ε)) here entries = .ok entries := by
  induction entries with
  | nil => rfl
  | cons entry rest ih =>
    rw [remaining, ih]
    rfl

theorem mem_pending {ε : Type} (v : Visit ε) (here : Path) (d : Pending) :
    d ∈ v.pending here ↔ ∃ name, (name, d.2) ∈ v.directories ∧ d.1 = here ++ [name] := by
  unfold Visit.pending
  rw [List.mem_map]
  constructor
  · rintro ⟨⟨name, inner⟩, hmem, rfl⟩
    exact ⟨name, hmem, rfl⟩
  · rintro ⟨name, hmem, hpath⟩
    exact ⟨(name, d.2), hmem, Prod.ext hpath.symm rfl⟩

namespace Search

variable {ε : Type} {s : Search ε} {inherited : List (PathTest ε)} {here : Path}
variable {entries : List (String × Entry)} {v : Visit ε}

theorem mem_directories (h : s.visit inherited here entries = .ok v) (name : String)
    (inner : List (String × Entry)) :
    (name, inner) ∈ v.directories ↔
      (name, .directory inner) ∈ entries ∧ isHidden name = false ∧
        leftOut v.tests (here ++ [name]) = .ok false := by
  rw [mem_remaining (visit_eq_ok h).2.1, (sortByName_perm _).mem_iff, mem_openDirectories,
    and_assoc]

theorem mem_files (h : s.visit inherited here entries = .ok v) (path : Path) :
    path ∈ v.files ↔
      ∃ name contents, path = here ++ [name] ∧ (name, .file contents) ∈ entries ∧
        leftOut v.tests (here ++ [name]) = .ok false ∧
        s.selects (Path.relativeText (here ++ [name])) = true := by
  obtain ⟨_, _, files, hfiles, hv⟩ := visit_eq_ok h
  rw [hv, selected, List.mem_filter, List.mem_map]
  constructor
  · rintro ⟨⟨⟨name, e⟩, hmem, rfl⟩, hselects⟩
    obtain ⟨hmem, hkeep⟩ := (mem_remaining hfiles _).1 hmem
    obtain ⟨hmem, hfile⟩ := List.mem_filter.1 hmem
    cases e with
    | file contents => exact ⟨name, contents, rfl, hmem, hkeep, hselects⟩
    | directory inner => cases hfile
    | link target => cases hfile
  · rintro ⟨name, contents, rfl, hmem, hkeep, hselects⟩
    have hfile : (name, .file contents) ∈ entries.filter (·.2.isFile) :=
      List.mem_filter.2 ⟨hmem, rfl⟩
    exact ⟨⟨_, (mem_remaining hfiles _).2 ⟨hfile, hkeep⟩, rfl⟩, hselects⟩

/-- What is kept below a directory is found on a visit, or kept below one to visit next. -/
theorem keeps_iff_of_visit (h : s.visit inherited here entries = .ok v) (path : Path) :
    s.Keeps inherited here entries path ↔
      path ∈ v.files ∨ ∃ d ∈ v.pending here, s.Keeps v.tests d.1 d.2 path := by
  have htests := (visit_eq_ok h).1
  constructor
  · intro hkeeps
    cases hkeeps with
    | file htests' hmem hkeep hselects =>
      rw [htests] at htests'
      cases htests'
      exact .inl ((mem_files h _).2 ⟨_, _, rfl, hmem, hkeep, hselects⟩)
    | @directory _ _ _ _ inner name _ htests' hmem hopen hkeep hbelow =>
      rw [htests] at htests'
      cases htests'
      have hdir := (mem_directories h name inner).2 ⟨hmem, hopen, hkeep⟩
      exact .inr ⟨(here ++ [name], inner), (mem_pending v here _).2 ⟨name, hdir, rfl⟩, hbelow⟩
  · rintro (hfile | ⟨⟨next, inner⟩, hpending, hbelow⟩)
    · obtain ⟨name, contents, rfl, hmem, hkeep, hselects⟩ := (mem_files h path).1 hfile
      exact .file htests hmem hkeep hselects
    · obtain ⟨name, hdir, rfl⟩ := (mem_pending v here _).1 hpending
      obtain ⟨hmem, hopen, hkeep⟩ := (mem_directories h name inner).1 hdir
      exact .directory htests hmem hopen hkeep hbelow

theorem nodup_directories (hnd : (entries.map (·.1)).Nodup)
    (h : s.visit inherited here entries = .ok v) : (v.directories.map (·.1)).Nodup := by
  have hsub := (sublist_of_remaining (visit_eq_ok h).2.1).map (·.1)
  have hperm := (sortByName_perm (openDirectories entries)).map (·.1)
  exact (hperm.nodup_iff.2 (hnd.sublist (names_openDirectories entries))).sublist hsub

theorem nodup_files (hnd : (entries.map (·.1)).Nodup)
    (h : s.visit inherited here entries = .ok v) : v.files.Nodup := by
  obtain ⟨_, _, files, hfiles, hv⟩ := visit_eq_ok h
  have hsub := (sublist_of_remaining hfiles).trans List.filter_sublist
  have hnames : (files.map (·.1)).Nodup := hnd.sublist (hsub.map _)
  rw [hv, selected]
  apply List.Nodup.filter
  have hpaths := hnames.map (f := fun name => here ++ [name]) fun a b hab => by simpa using hab
  rwa [List.map_map] at hpaths

/-- Without tests a visit gives all directories that are not hidden and all files selected. -/
theorem visit_of_noTests (h : s.testsAt inherited here = .ok []) :
    s.visit inherited here entries =
      .ok ⟨[], sortByName (openDirectories entries),
        s.selected here (entries.filter (·.2.isFile))⟩ :=
  bind_eq_ok.2 ⟨_, h, bind_eq_ok.2 ⟨_, remaining_of_noTests here _,
    bind_eq_ok.2 ⟨_, remaining_of_noTests here _, rfl⟩⟩⟩

end Search

/-! ## Directories apart -/

/-- Neither path leads through the other. -/
def Path.Apart (p q : Path) : Prop := ¬ p <+: q ∧ ¬ q <+: p

theorem Path.Apart.append {p q : Path} (h : p.Apart q) (rest : Path) :
    Path.Apart (p ++ rest) q := by
  refine ⟨fun hprefix => h.1 ((List.prefix_append p rest).trans hprefix), fun hprefix => ?_⟩
  rcases List.prefix_or_prefix_of_prefix hprefix (List.prefix_append p rest) with hqp | hpq
  · exact h.2 hqp
  · exact h.1 hpq

theorem Path.apart_of_name_ne (here : Path) {a b : String} (hne : a ≠ b) :
    Path.Apart (here ++ [a]) (here ++ [b]) := by
  constructor
  · intro hprefix
    exact hne (by simpa using (List.prefix_append_right_inj here).1 hprefix)
  · intro hprefix
    exact hne.symm (by simpa using (List.prefix_append_right_inj here).1 hprefix)

/-- What lies below one of two directories that are apart does not lie below the other. -/
theorem Path.Apart.ne_append {p q : Path} (h : p.Apart q) (rest : Path) : q ≠ p ++ rest := by
  rintro rfl
  exact h.1 (List.prefix_append p rest)

/-! ## The table of tests -/

section Table

variable {ε : Type} {v : Visit ε} {here path : Path}

/-- One list of tests is kept for all of some directories. -/
theorem lookup_of_mem {ds : List Pending} {d : Pending} (hd : d ∈ ds) (tests : List (PathTest ε)) :
    (ds.map fun d => (d.1, tests)).lookup d.1 = some tests := by
  induction ds with
  | nil => cases hd
  | cons first rest ih =>
    rw [List.map_cons, List.lookup_cons]
    by_cases heq : d.1 = first.1
    · simp [heq]
    · rcases List.mem_cons.1 hd with rfl | hrest
      · exact absurd rfl heq
      · rw [beq_false_of_ne heq]
        exact ih hrest

theorem lookup_filter_ne {α : Type} (kept : List (Path × α)) (hne : path ≠ here) :
    (kept.filter (·.1 != here)).lookup path = kept.lookup path := by
  induction kept with
  | nil => rfl
  | cons first rest ih =>
    by_cases hgone : first.1 = here
    · have hother : path ≠ first.1 := fun heq => hne (heq.trans hgone)
      rw [List.filter_cons_of_neg (by simpa using hgone), List.lookup_cons,
        beq_false_of_ne hother, ih]
    · rw [List.filter_cons_of_pos (by simpa using hgone), List.lookup_cons, List.lookup_cons, ih]

theorem lookup_table_of_pending {d : Pending} (hd : d ∈ v.pending here) (kept : TestTable ε) :
    (v.table here kept).lookup d.1 = some v.tests := by
  rw [Visit.table, List.lookup_append, lookup_of_mem hd v.tests]
  rfl

/-- What is apart from the directory that is visited keeps its tests. -/
theorem lookup_table_of_apart (hapart : Path.Apart here path) (kept : TestTable ε) :
    (v.table here kept).lookup path = kept.lookup path := by
  have hnew : ((v.pending here).map fun d => (d.1, v.tests)).lookup path = none := by
    rw [List.lookup_eq_none_iff]
    intro entry hentry
    obtain ⟨d, hd, rfl⟩ := List.mem_map.1 hentry
    obtain ⟨name, -, hpath⟩ := (mem_pending v here d).1 hd
    simpa [hpath] using hapart.ne_append [name]
  have hne : path ≠ here := by simpa using hapart.ne_append []
  rw [Visit.table, List.lookup_append, hnew, Option.none_or, lookup_filter_ne kept hne]

end Table

/-! ## The invariant of a walk -/

/-- What holds whenever a walk goes on: the pending directories are well-formed and none of them
lies above another, and the table has the tests of each. -/
structure Ready {ε : Type} (pending : List Pending) (kept : TestTable ε) : Prop where
  wellFormed : ∀ d ∈ pending, (Entry.directory d.2).isWellFormed = true
  apart : pending.Pairwise fun d e => Path.Apart d.1 e.1
  kept : ∀ d ∈ pending, ∃ tests, kept.lookup d.1 = some tests

section Walk

variable {ε : Type} {s : Search ε} {inherited : List (PathTest ε)} {here : Path}
variable {entries : List (String × Entry)} {later : List Pending} {kept : TestTable ε} {v : Visit ε}

theorem Ready.start {entries : List (String × Entry)}
    (hwf : (Entry.directory entries).isWellFormed = true) (tests : List (PathTest ε)) :
    Ready [([], entries)] [([], tests)] :=
  { wellFormed := by simpa using hwf
    apart := List.pairwise_singleton _ _
    kept := by simp }

theorem Ready.apart_of_later (hready : Ready ((here, entries) :: later) kept) {d : Pending}
    (hd : d ∈ later) : Path.Apart here d.1 :=
  (List.pairwise_cons.1 hready.apart).1 d hd

theorem Ready.nodup_names (hready : Ready ((here, entries) :: later) kept) :
    (entries.map (·.1)).Nodup :=
  ((Entry.isWellFormed_directory_iff entries).1 (hready.wellFormed _ List.mem_cons_self)).1

/-- The directories to visit next are apart from one another. -/
theorem pairwise_pending (hnd : (entries.map (·.1)).Nodup)
    (h : s.visit inherited here entries = .ok v) :
    (v.pending here).Pairwise fun d e => Path.Apart d.1 e.1 := by
  have hnames := Search.nodup_directories hnd h
  rw [List.Nodup, List.pairwise_map] at hnames
  rw [Visit.pending, List.pairwise_map]
  exact hnames.imp fun hne => Path.apart_of_name_ne here hne

/-- A visit keeps the invariant. -/
theorem Ready.visit (hready : Ready ((here, entries) :: later) kept)
    (h : s.visit inherited here entries = .ok v) :
    Ready (v.pending here ++ later) (v.table here kept) := by
  have hentries := hready.wellFormed _ List.mem_cons_self
  refine { wellFormed := ?_, apart := ?_, kept := ?_ }
  · intro d hd
    rcases List.mem_append.1 hd with hd | hd
    · obtain ⟨name, hdir, -⟩ := (mem_pending v here d).1 hd
      obtain ⟨hmem, -⟩ := (Search.mem_directories h name d.2).1 hdir
      exact (Entry.isWellFormed_of_mem hentries hmem).2
    · exact hready.wellFormed d (.tail _ hd)
  · rw [List.pairwise_append]
    refine ⟨pairwise_pending hready.nodup_names h, (List.pairwise_cons.1 hready.apart).2, ?_⟩
    intro d hd e he
    obtain ⟨name, -, hpath⟩ := (mem_pending v here d).1 hd
    rw [hpath]
    exact (hready.apart_of_later he).append [name]
  · intro d hd
    rcases List.mem_append.1 hd with hd | hd
    · exact ⟨v.tests, lookup_table_of_pending hd kept⟩
    · rw [lookup_table_of_apart (hready.apart_of_later hd)]
      exact hready.kept d (.tail _ hd)

/-! ## Runs of the walk -/

/-- The path is kept below one of the pending directories, with the tests that the table has for
it. -/
def Search.KeptBelow (s : Search ε) (pending : List Pending) (kept : TestTable ε) (path : Path) :
    Prop :=
  ∃ d ∈ pending, ∃ tests, kept.lookup d.1 = some tests ∧ s.Keeps tests d.1 d.2 path

/-- A visit takes the selected files of a directory out of what is kept, and nothing else. -/
theorem keptBelow_iff_of_visit (hready : Ready ((here, entries) :: later) kept)
    (hlookup : kept.lookup here = some inherited) (h : s.visit inherited here entries = .ok v)
    (path : Path) :
    s.KeptBelow ((here, entries) :: later) kept path ↔
      path ∈ v.files ∨ s.KeptBelow (v.pending here ++ later) (v.table here kept) path := by
  constructor
  · rintro ⟨d, hd, tests, htests, hkeeps⟩
    rcases List.mem_cons.1 hd with rfl | hd
    · rw [hlookup] at htests
      cases htests
      rcases (Search.keeps_iff_of_visit h path).1 hkeeps with hfile | ⟨d, hd, hbelow⟩
      · exact .inl hfile
      · have htable := lookup_table_of_pending hd kept
        exact .inr ⟨d, List.mem_append_left _ hd, v.tests, htable, hbelow⟩
    · have htable := lookup_table_of_apart (v := v) (hready.apart_of_later hd) kept
      exact .inr ⟨d, List.mem_append_right _ hd, tests, htable.trans htests, hkeeps⟩
  · rintro (hfile | ⟨d, hd, tests, htests, hkeeps⟩)
    · have hkeeps := (Search.keeps_iff_of_visit h path).2 (.inl hfile)
      exact ⟨(here, entries), List.mem_cons_self, inherited, hlookup, hkeeps⟩
    · rcases List.mem_append.1 hd with hd | hd
      · rw [lookup_table_of_pending hd] at htests
        cases htests
        have hkeeps := (Search.keeps_iff_of_visit h path).2 (.inr ⟨d, hd, hkeeps⟩)
        exact ⟨(here, entries), List.mem_cons_self, inherited, hlookup, hkeeps⟩
      · rw [lookup_table_of_apart (hready.apart_of_later hd)] at htests
        exact ⟨d, .tail _ hd, tests, htests, hkeeps⟩

/-- A file of the visited directory lies below no directory that is still pending. -/
theorem not_keptBelow_of_mem_files (hready : Ready ((here, entries) :: later) kept)
    (h : s.visit inherited here entries = .ok v) {path : Path} (hfile : path ∈ v.files) :
    ¬ s.KeptBelow (v.pending here ++ later) (v.table here kept) path := by
  obtain ⟨name, contents, rfl, -⟩ := (Search.mem_files h path).1 hfile
  rintro ⟨d, hd, tests, -, hkeeps⟩
  have hwf := (hready.visit h).wellFormed d hd
  obtain ⟨next, rest, _, hpath, -⟩ := hkeeps.exists_file hwf
  rcases List.mem_append.1 hd with hd | hd
  · -- below a directory inside the one visited, paths are longer
    obtain ⟨other, -, hother⟩ := (mem_pending v here d).1 hd
    have hlength := congrArg List.length hpath
    rw [hother] at hlength
    simp at hlength
  · exact ((hready.apart_of_later hd).append [name]).2 ⟨next :: rest, hpath.symm⟩

/-- A walk, by its first visit. -/
theorem walkFrom_cons_ok {r : Option (List Path)} (hlookup : kept.lookup here = some inherited)
    (h : s.walkFrom ((here, entries) :: later) kept = .ok r) :
    ∃ v rest, s.visit inherited here entries = .ok v ∧
      s.walkFrom (v.pending here ++ later) (v.table here kept) = .ok rest ∧
      r = rest.map (v.files ++ ·) := by
  rw [Search.walkFrom_cons, hlookup] at h
  obtain ⟨v, hvisit, h⟩ := bind_eq_ok.1 h
  obtain ⟨rest, hrest, h⟩ := bind_eq_ok.1 h
  cases h
  exact ⟨v, rest, hvisit, hrest, rfl⟩

/-- A walk that ends has found every file that is kept, once, and has missed no tests. -/
theorem walkFrom_spec (s : Search ε) {pending : List Pending} {kept : TestTable ε}
    (hready : Ready pending kept) {r : Option (List Path)} (h : s.walkFrom pending kept = .ok r) :
    ∃ found, r = some found ∧ found.Nodup ∧
      ∀ path, path ∈ found ↔ s.KeptBelow pending kept path := by
  -- by induction on the weight, which every visit makes smaller
  induction hweight : weight pending using Nat.strongRecOn generalizing pending kept r with
  | ind n ih =>
    cases pending with
    | nil =>
      rw [Search.walkFrom_nil] at h
      cases h
      exact ⟨[], rfl, List.nodup_nil, fun path => by simp [Search.KeptBelow]⟩
    | cons d later =>
      obtain ⟨here, entries⟩ := d
      obtain ⟨inherited, hlookup⟩ := hready.kept _ List.mem_cons_self
      obtain ⟨v, rest, hvisit, hrest, rfl⟩ := walkFrom_cons_ok hlookup h
      have hless := Search.weight_lt_of_visit hvisit later
      obtain ⟨found, rfl, hnd, hfound⟩ := ih _ (hweight ▸ hless) (hready.visit hvisit) hrest rfl
      refine ⟨v.files ++ found, rfl, ?_, fun path => ?_⟩
      · rw [List.nodup_append]
        refine ⟨Search.nodup_files hready.nodup_names hvisit, hnd, ?_⟩
        rintro path hfile _ hmem rfl
        exact not_keptBelow_of_mem_files hready hvisit hfile ((hfound path).1 hmem)
      · rw [List.mem_append, hfound, keptBelow_iff_of_visit hready hlookup hvisit]

/-- What a search finds below a directory, when no test fails. -/
theorem walk_spec (s : Search ε) {entries : List (String × Entry)}
    (hwf : (Entry.directory entries).isWellFormed = true) {r : Option (List Path)}
    (h : s.walk entries = .ok r) :
    ∃ first found, s.testAt [] = .ok first ∧ r = some found ∧ found.Nodup ∧
      ∀ path, path ∈ found ↔ s.Keeps first.toList [] entries path := by
  obtain ⟨first, hfirst, h⟩ := bind_eq_ok.1 h
  obtain ⟨found, hr, hnd, hfound⟩ := walkFrom_spec s (Ready.start hwf first.toList) h
  refine ⟨first, found, hfirst, hr, hnd, fun path => ?_⟩
  rw [hfound]
  simp [Search.KeptBelow]

end Walk

/-! ## Ignore files -/

/-- The directory has an ignore file; links to it are followed. -/
def HasIgnoreFile (fs : FileSystem) (root dir : Path) : Prop :=
  ∃ contents, fs.locate (root ++ dir ++ [ignoreFileName]) = .ok (.file contents)

/-- The test of an ignore file is the one that was read. -/
theorem ignoreTest_eq_some_iff {ε : Type} {ignore : IgnoreReader ε} {fs : FileSystem}
    {root dir : Path} {test : PathTest (SearchError ε)} :
    ignoreTest ignore fs root dir = .ok (some test) ↔
      HasIgnoreFile fs root dir ∧ ∃ own, ignore dir = .ok own ∧ test = own.lift := by
  rw [HasIgnoreFile, ← FileSystem.isFile_iff]
  unfold ignoreTest
  generalize root ++ dir ++ [ignoreFileName] = file
  split
  · next h => simp [h]
  · next h => simp [h]
  · next h =>
    cases ignore dir with
    | error e => simp [h]
    | ok own => simp [h, eq_comm]

/-- A directory whose ignore file is missing makes no test. -/
theorem ignoreTest_of_missing {ε : Type} {ignore : IgnoreReader ε} {fs : FileSystem}
    {root dir : Path} (h : fs.locate (root ++ dir ++ [ignoreFileName]) = .error .missing) :
    ignoreTest ignore fs root dir = .ok none := by
  rw [ignoreTest, FileSystem.isFile, h]

/-! ## Top theorems -/

/-- Before anything else, the test of the directory itself is made. -/
theorem discover_eq_error {ε : Type} {ignore : IgnoreReader ε} {fs : FileSystem} {root : Path}
    {config : Config} {e : SearchError ε} (h : ignoreTest ignore fs root [] = .error e) :
    discover ignore fs root config = .error e := by
  unfold discover
  dsimp only
  split
  · exact bind_eq_error.2 (.inl (bind_eq_error.2 (.inl h)))
  · rw [h]
    rfl

/-- The files that are discovered below a directory: those that its search keeps, each once, in
strictly increasing order of their texts. -/
theorem discover_ok {ε : Type} {ignore : IgnoreReader ε} {fs : FileSystem} {root : Path}
    {config : Config} {entries : List (String × Entry)} {paths : List Path}
    (hroot : fs.locate root = .ok (.directory entries))
    (hwf : (Entry.directory entries).isWellFormed = true)
    (h : discover ignore fs root config = .ok paths) :
    ∃ first, ignoreTest ignore fs root [] = .ok first ∧
      (paths.Pairwise fun p q => p.relativeText < q.relativeText) ∧
      ∀ path, path ∈ paths ↔
        (config.search (ignoreTest ignore fs root)).Keeps first.toList [] entries path := by
  rw [discover, hroot] at h
  obtain ⟨r, hwalk, h⟩ := bind_eq_ok.1 h
  obtain ⟨first, found, hfirst, rfl, hnd, hfound⟩ := walk_spec _ hwf hwalk
  cases h
  refine ⟨first, hfirst, sortPaths_strict hnd fun path hpath => ?_, fun path => ?_⟩
  · obtain ⟨name, rest, contents, rfl, hat⟩ := ((hfound path).1 hpath).exists_file hwf
    exact ⟨List.cons_ne_nil name rest, (Entry.isWellFormed_of_at? hwf hat).2⟩
  · rw [(sortPaths_perm _).mem_iff]
    exact hfound path

end CallAlign
