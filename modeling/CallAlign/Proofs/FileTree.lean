import CallAlign.FileSystem
import Mathlib.Data.List.Nodup

/-!
# Trees that a disk can hold

In a well-formed tree every directory holds distinct names, and only names that a file can have.
A path through such a tree that meets no link leads to the same place for every reader: as a path
from a directory (`at?`) and as a path that is looked up with its links followed (`locate`).

    lookup_eq_some_iff_mem : a directory holds one entry of a name
    locate_append          : below a directory that is found, a path without links is found
    locate_missing         : a name that a directory does not hold is missing
-/

namespace CallAlign

/-! ## Well-formed trees -/

/-- A name that a file can have: it is not empty, stands for no directory on the way, has no slash
and no NUL in it, and is not too long. -/
def isLegalName (name : String) : Bool :=
  name != "" && name != "." && name != ".." && !name.toList.contains '/' &&
    !name.toList.contains '\x00' && decide (name.utf8ByteSize ≤ FileSystem.nameLimit)

namespace Entry

mutual

/-- Every directory holds distinct legal names. -/
def isWellFormed : Entry → Bool
  | .directory entries => decide (entries.map (·.1)).Nodup && areWellFormed entries
  | _ => true

def areWellFormed : List (String × Entry) → Bool
  | [] => true
  | (name, e) :: rest => isLegalName name && isWellFormed e && areWellFormed rest

end

/-! ## Lemmas -/

theorem areWellFormed_iff (entries : List (String × Entry)) :
    areWellFormed entries = true ↔
      ∀ name e, (name, e) ∈ entries → isLegalName name = true ∧ e.isWellFormed = true := by
  induction entries with
  | nil => simp [areWellFormed]
  | cons entry rest ih =>
    obtain ⟨name, e⟩ := entry
    rw [areWellFormed, Bool.and_eq_true, Bool.and_eq_true, ih]
    constructor
    · rintro ⟨hhead, hrest⟩ name' e' hmem
      rcases List.mem_cons.1 hmem with heq | hmem
      · cases heq
        exact hhead
      · exact hrest name' e' hmem
    · intro h
      exact ⟨h name e List.mem_cons_self, fun name' e' hmem => h name' e' (.tail _ hmem)⟩

theorem isWellFormed_directory_iff (entries : List (String × Entry)) :
    (Entry.directory entries).isWellFormed = true ↔
      (entries.map (·.1)).Nodup ∧
        ∀ name e, (name, e) ∈ entries → isLegalName name = true ∧ e.isWellFormed = true := by
  rw [isWellFormed, Bool.and_eq_true, decide_eq_true_eq, areWellFormed_iff]

end Entry

/-- Of a name that occurs once, there is one entry. -/
theorem lookup_eq_some_iff_mem {α β : Type} [BEq α] [LawfulBEq α] {entries : List (α × β)}
    (hnd : (entries.map (·.1)).Nodup) {k : α} {v : β} :
    entries.lookup k = some v ↔ (k, v) ∈ entries := by
  rw [List.lookup_eq_some_iff]
  constructor
  · rintro ⟨before, after, rfl, -⟩
    simp
  · intro h
    obtain ⟨before, after, rfl⟩ := List.append_of_mem h
    refine ⟨before, after, rfl, fun p hp => ?_⟩
    rw [List.map_append, List.nodup_append] at hnd
    have hne := hnd.2.2 p.1 (List.mem_map_of_mem hp) k (by simp)
    simpa using fun heq => hne heq.symm

namespace Entry

theorem at?_nil (e : Entry) : e.at? [] = some e := by
  cases e <;> rfl

theorem at?_directory_cons (entries : List (String × Entry)) (name : String) (path : Path) :
    (Entry.directory entries).at? (name :: path) = (entries.lookup name).bind (·.at? path) := rfl

/-- Only a directory has something below it. -/
theorem exists_of_at?_cons {e found : Entry} {name : String} {path : Path}
    (h : e.at? (name :: path) = some found) :
    ∃ entries inner, e = .directory entries ∧ entries.lookup name = some inner ∧
      inner.at? path = some found := by
  cases e with
  | directory entries =>
    obtain ⟨inner, hlookup, hinner⟩ := Option.bind_eq_some_iff.1 h
    exact ⟨entries, inner, rfl, hlookup, hinner⟩
  | file contents => cases h
  | link target => cases h

theorem at?_append (e : Entry) (p q : Path) : e.at? (p ++ q) = (e.at? p).bind (·.at? q) := by
  induction p generalizing e with
  | nil => simp [at?_nil]
  | cons name p ih =>
    cases e with
    | directory entries =>
      rw [List.cons_append, at?_directory_cons, at?_directory_cons, Option.bind_assoc]
      exact Option.bind_congr fun inner _ => ih inner
    | file contents => rfl
    | link target => rfl

theorem isWellFormed_of_mem {entries : List (String × Entry)}
    (h : (Entry.directory entries).isWellFormed = true) {name : String} {e : Entry}
    (hmem : (name, e) ∈ entries) : isLegalName name = true ∧ e.isWellFormed = true :=
  ((isWellFormed_directory_iff entries).1 h).2 name e hmem

theorem isWellFormed_of_lookup {entries : List (String × Entry)}
    (h : (Entry.directory entries).isWellFormed = true) {name : String} {e : Entry}
    (hlookup : entries.lookup name = some e) : isLegalName name = true ∧ e.isWellFormed = true := by
  have hnd := ((isWellFormed_directory_iff entries).1 h).1
  exact isWellFormed_of_mem h ((lookup_eq_some_iff_mem hnd).1 hlookup)

theorem at?_cons_of_mem {entries : List (String × Entry)}
    (h : (Entry.directory entries).isWellFormed = true) {name : String} {e : Entry}
    (hmem : (name, e) ∈ entries) (path : Path) :
    (Entry.directory entries).at? (name :: path) = e.at? path := by
  have hnd := ((isWellFormed_directory_iff entries).1 h).1
  rw [at?_directory_cons, (lookup_eq_some_iff_mem hnd).2 hmem, Option.bind_some]

theorem isWellFormed_of_at? {e found : Entry} {path : Path} (h : e.isWellFormed = true)
    (hat : e.at? path = some found) :
    found.isWellFormed = true ∧ ∀ name ∈ path, isLegalName name = true := by
  induction path generalizing e with
  | nil =>
    rw [at?_nil] at hat
    cases hat
    exact ⟨h, by simp⟩
  | cons name path ih =>
    obtain ⟨entries, inner, rfl, hlookup, hinner⟩ := exists_of_at?_cons hat
    obtain ⟨hname, hwf⟩ := isWellFormed_of_lookup h hlookup
    obtain ⟨hfound, hpath⟩ := ih hwf hinner
    exact ⟨hfound, List.forall_mem_cons.2 ⟨hname, hpath⟩⟩

/-- A link has nothing below it. -/
theorem ne_link_of_at? {e found : Entry} {path : Path} (h : e.at? path = some found)
    (hlink : ∀ target, found ≠ .link target) (target : Path) : e ≠ .link target := by
  rintro rfl
  cases path with
  | nil =>
    cases h
    exact hlink target rfl
  | cons _ _ => cases h

end Entry

/-! ## Looking up below a directory -/

namespace FileSystem

theorem isFile_iff {fs : FileSystem} {path : Path} :
    fs.isFile path = .ok true ↔ ∃ contents, fs.locate path = .ok (.file contents) := by
  unfold isFile
  split
  · next contents hfile => simp [hfile]
  · next hlong => simp [hlong]
  · next hother _ => simpa using hother

/-- Whether a path leads to a file is left open only by a name that is too long. -/
theorem isFile_eq_error_iff {fs : FileSystem} {path : Path} {e : ReadError} :
    fs.isFile path = .error e ↔ e = .nameTooLong ∧ fs.locate path = .error .nameTooLong := by
  unfold isFile
  split
  · next contents hfile => simp [hfile]
  · next hlong => simp [hlong, eq_comm]
  · next _ hother => simpa using fun _ => hother

theorem isFile_of_directory {fs : FileSystem} {path : Path} {entries : List (String × Entry)}
    (h : fs.locate path = .ok (.directory entries)) : fs.isFile path = .ok false := by
  rw [isFile, h]

theorem read_eq_ok_iff {fs : FileSystem} {path : Path} {bytes : List UInt8} :
    fs.read path = .ok bytes ↔ fs.locate path = .ok (.file (some bytes)) := by
  unfold read
  split
  · next e herror => simp [herror]
  · next found hfile => simp [hfile]
  · next entries hdir => simp [hdir]
  · next e hother _ hfound => simpa [hfound] using hother bytes

theorem locate_nil (fs : FileSystem) : fs.locate [] = .ok fs.root := by
  rw [locate, resolve]
  dsimp only
  rw [Entry.at?_nil]

theorem ne_up_of_isLegalName {name : String} (h : isLegalName name = true) : name ≠ ".." := by
  simp only [isLegalName, Bool.and_eq_true, bne_iff_ne] at h
  exact h.1.1.1.2

theorem size_le_of_isLegalName {name : String} (h : isLegalName name = true) :
    name.utf8ByteSize ≤ nameLimit := by
  simp only [isLegalName, Bool.and_eq_true, decide_eq_true_eq] at h
  exact h.2

/-- A path that meets no link resolves to itself. -/
theorem resolve_of_at? {root e found : Entry} {place rest : Path} (hwf : e.isWellFormed = true)
    (hplace : root.at? place = some e) (hfound : e.at? rest = some found)
    (hlink : ∀ target, found ≠ .link target) (links : Nat) :
    resolve root links place rest = .ok (place ++ rest) := by
  induction rest generalizing place e with
  | nil => rw [resolve, List.append_nil]
  | cons name rest ih =>
    obtain ⟨entries, inner, rfl, hlookup, hinner⟩ := Entry.exists_of_at?_cons hfound
    obtain ⟨hname, hwf⟩ := Entry.isWellFormed_of_lookup hwf hlookup
    have hnext : root.at? (place ++ [name]) = some inner := by
      rw [Entry.at?_append, hplace, Option.bind_some, Entry.at?_directory_cons, hlookup]
      exact Entry.at?_nil inner
    have hlength := size_le_of_isLegalName hname
    rw [resolve, hplace]
    dsimp only
    rw [if_neg (ne_up_of_isLegalName hname), if_neg (by omega), hlookup]
    cases inner with
    | link target => exact absurd rfl (Entry.ne_link_of_at? hinner hlink target)
    | file _ => simpa using ih hwf hnext hinner
    | directory _ => simpa using ih hwf hnext hinner

/-- The rest of a path is resolved from the place of the first part, with the links left then. -/
theorem exists_resolve_append {root : Entry} {links : Nat} {here path place : Path}
    (h : resolve root links here path = .ok place) (rest : Path) :
    ∃ left, resolve root links here (path ++ rest) = resolve root left place rest := by
  fun_induction resolve root links here path with
  | case1 links here =>
    cases h
    exact ⟨links, rfl⟩
  | case2 links here rest' entries hdir ih =>
    rw [List.cons_append, resolve, hdir]
    simpa using ih h
  | case3 => cases h
  | case4 => cases h
  | case5 => cases h
  | case6 here name rest' entries hdir hup hlong target hlookup links ih =>
    rw [List.cons_append, resolve, hdir]
    dsimp only
    rw [if_neg hup, if_neg hlong, hlookup]
    simpa using ih h
  | case7 links here name rest' entries hdir hup hlong e hlink hlookup ih =>
    rw [List.cons_append, resolve, hdir]
    dsimp only
    rw [if_neg hup, if_neg hlong, hlookup]
    simpa using ih h
  | case8 => cases h

/-- What is found lies at the place that the path resolves to. -/
theorem exists_place_of_locate {fs : FileSystem} {path : Path} {e : Entry}
    (h : fs.locate path = .ok e) :
    ∃ place, resolve fs.root linkLimit [] path = .ok place ∧ fs.root.at? place = some e := by
  unfold locate at h
  cases hplace : resolve fs.root linkLimit [] path with
  | error err => rw [hplace] at h; cases h
  | ok place =>
    rw [hplace] at h
    dsimp only at h
    cases hat : fs.root.at? place with
    | none => rw [hat] at h; cases h
    | some found =>
      rw [hat] at h
      cases h
      exact ⟨place, rfl, hat⟩

theorem isWellFormed_of_locate {fs : FileSystem} {path : Path} {e : Entry}
    (hwf : fs.root.isWellFormed = true) (h : fs.locate path = .ok e) : e.isWellFormed = true := by
  obtain ⟨place, -, hat⟩ := exists_place_of_locate h
  exact (Entry.isWellFormed_of_at? hwf hat).1

/-- Below a directory that is found, what lies on a path without links is found. -/
theorem locate_append {fs : FileSystem} {path rest : Path} {e found : Entry}
    (hwf : fs.root.isWellFormed = true) (hpath : fs.locate path = .ok e)
    (hfound : e.at? rest = some found) (hlink : ∀ target, found ≠ .link target) :
    fs.locate (path ++ rest) = .ok found := by
  obtain ⟨place, hplace, hat⟩ := exists_place_of_locate hpath
  obtain ⟨left, hleft⟩ := exists_resolve_append hplace rest
  have he := isWellFormed_of_locate hwf hpath
  unfold locate
  rw [hleft, resolve_of_at? he hat hfound hlink]
  dsimp only
  rw [Entry.at?_append, hat, Option.bind_some, hfound]

/-- What lies in the tree on a path without links is found. -/
theorem locate_of_at? {fs : FileSystem} {path : Path} {e : Entry}
    (hwf : fs.root.isWellFormed = true) (he : fs.root.at? path = some e)
    (hlink : ∀ target, e ≠ .link target) : fs.locate path = .ok e :=
  locate_append hwf (locate_nil fs) he hlink

theorem read_of_at? {fs : FileSystem} {path : Path} {bytes : List UInt8}
    (hwf : fs.root.isWellFormed = true)
    (h : fs.root.at? path = some (.file (some bytes))) : fs.read path = .ok bytes :=
  read_eq_ok_iff.2 (locate_of_at? hwf h nofun)

/-- A legal name that a directory does not hold is missing there. -/
theorem locate_missing {fs : FileSystem} {path : Path} {name : String}
    {entries : List (String × Entry)} (hpath : fs.locate path = .ok (.directory entries))
    (hname : isLegalName name = true) (hmissing : entries.lookup name = none) :
    fs.locate (path ++ [name]) = .error .missing := by
  obtain ⟨place, hplace, hat⟩ := exists_place_of_locate hpath
  obtain ⟨left, hleft⟩ := exists_resolve_append hplace [name]
  have hlength := size_le_of_isLegalName hname
  have hstep : resolve fs.root left place [name] = .error .missing := by
    rw [resolve, hat]
    dsimp only
    rw [if_neg (ne_up_of_isLegalName hname), if_neg (by omega), hmissing]
  rw [locate, hleft, hstep]

/-- A path that meets no link is a real path. -/
theorem realPathFrom_of_at? {root e found : Entry} {place rest : Path}
    (hwf : e.isWellFormed = true) (hplace : root.at? place = some e)
    (hfound : e.at? rest = some found) (hlink : ∀ target, found ≠ .link target) (links : Nat)
    (opened : List Path) : realPathFrom root links opened place rest = .ok (place ++ rest) := by
  induction rest generalizing place e with
  | nil => rw [realPathFrom, List.append_nil]
  | cons name rest ih =>
    obtain ⟨entries, inner, rfl, hlookup, hinner⟩ := Entry.exists_of_at?_cons hfound
    obtain ⟨hname, hwf⟩ := Entry.isWellFormed_of_lookup hwf hlookup
    have hnext : root.at? (place ++ [name]) = some inner := by
      rw [Entry.at?_append, hplace, Option.bind_some, Entry.at?_directory_cons, hlookup]
      exact Entry.at?_nil inner
    rw [realPathFrom, if_neg (ne_up_of_isLegalName hname)]
    dsimp only
    rw [hnext]
    cases inner with
    | link target => exact absurd rfl (Entry.ne_link_of_at? hinner hlink target)
    | file _ => simpa using ih hwf hnext hinner
    | directory _ => simpa using ih hwf hnext hinner

theorem realPath_of_at? {fs : FileSystem} {path : Path} {e : Entry}
    (hwf : fs.root.isWellFormed = true) (he : fs.root.at? path = some e)
    (hlink : ∀ target, e ≠ .link target) : fs.realPath path = path := by
  rw [realPath, realPathFrom_of_at? hwf (Entry.at?_nil _) he hlink]
  rfl

end FileSystem

end CallAlign
