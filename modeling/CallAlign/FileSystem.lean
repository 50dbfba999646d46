import CallAlign.Text.Quoted

/-!
# Files, directories and links

A file system is a tree of named entries below one root directory.  A path is a list of names that
leads down from the root; the name `..` leads up again.

    at?_insert : an entry is found where it was put

`locate` follows links the way a system call does: a directory has to exist before `..` leaves it,
and no more than forty links are followed.  `realPath` is about names: what does not exist stays in
the path, and `..` takes off the name before it.
-/

namespace CallAlign

/-! ## Paths -/

/-- Names from a directory down. -/
abbrev Path := List String

namespace Path

/-- The names in the text of a path: empty names and `.` do not count. -/
def ofText (s : String) : Path :=
  ((s.toList.splitOn '/').map String.ofList).filter fun name => name != "" && name != "."

/-- The names with slashes between them, as a path below a directory is written. -/
def relativeText (p : Path) : String := "/".intercalate p

/-- A path from the root. -/
def text (p : Path) : String := "/" ++ relativeText p

end Path

/-! ## Entries -/

/-- What a name in a directory stands for.  A file that may not be read has no contents; the target
of a link is a path from the root. -/
inductive Entry where
  | file (contents : Option (List UInt8))
  | directory (entries : List (String × Entry))
  | link (target : Path)

namespace Entry

/-- The entry at the end of a path, with no link followed. -/
def at? : Entry → Path → Option Entry
  | e, [] => some e
  | .directory entries, name :: path => (entries.lookup name).bind (·.at? path)
  | _, _ :: _ => none
termination_by structural _ path => path

/-- The entries with the one of a name replaced, or added at the end. -/
def put (entries : List (String × Entry)) (name : String) (e : Entry) : List (String × Entry) :=
  match entries with
  | [] => [(name, e)]
  | (other, old) :: rest =>
    if name = other then (name, e) :: rest else (other, old) :: put rest name e

/-- The tree with an entry at the end of a path; directories on the way are made. -/
def insert : Entry → Path → Entry → Entry
  | _, [], new => new
  | .directory entries, name :: path, new =>
    .directory (put entries name (insert ((entries.lookup name).getD (.directory [])) path new))
  | _, name :: path, new => .directory [(name, insert (.directory []) path new)]
termination_by structural _ path => path

/-- The tree without the entry at the end of a path. -/
def erase : Entry → Path → Entry
  | .directory entries, [name] => .directory (entries.filter (·.1 != name))
  | .directory entries, name :: path =>
    match entries.lookup name with
    | some e => .directory (put entries name (erase e path))
    | none => .directory entries
  | e, _ => e
termination_by structural _ path => path

mutual

/-- The number of links. -/
def linkCount : Entry → Nat
  | .file _ => 0
  | .directory entries => linkCountAll entries
  | .link _ => 1

def linkCountAll : List (String × Entry) → Nat
  | [] => 0
  | (_, e) :: rest => linkCount e + linkCountAll rest

end

mutual

/-- The number of directories. -/
def directoryCount : Entry → Nat
  | .directory entries => directoryCountAll entries + 1
  | _ => 0

def directoryCountAll : List (String × Entry) → Nat
  | [] => 0
  | (_, e) :: rest => directoryCount e + directoryCountAll rest

end

end Entry

/-! ## Looking a path up -/

/-- Why a path leads to no file that can be read. -/
inductive ReadError where
  | missing
  | denied
  | notDirectory
  | isDirectory
  | nameTooLong
  | tooManyLinks
  deriving DecidableEq, Repr

namespace ReadError

def number : ReadError → Nat
  | missing => 2
  | denied => 13
  | notDirectory => 20
  | isDirectory => 21
  | nameTooLong => 36
  | tooManyLinks => 40

def reason : ReadError → String
  | missing => "No such file or directory"
  | denied => "Permission denied"
  | notDirectory => "Not a directory"
  | isDirectory => "Is a directory"
  | nameTooLong => "File name too long"
  | tooManyLinks => "Too many levels of symbolic links"

/-- The error as a message about a path. -/
def message (e : ReadError) (path : Path) : String :=
  "[Errno " ++ toString e.number ++ "] " ++ e.reason ++ ": " ++ Text.quoted path.text

end ReadError

/-- A whole tree, from the root directory. -/
structure FileSystem where
  root : Entry

namespace FileSystem

/-- The bytes that a name may have. -/
def nameLimit : Nat := 255

/-- The links that one path may lead through. -/
def linkLimit : Nat := 40

/-- Walks down from `here`, the place of an entry, and gives the place where the path ends.  At most
`links` links are followed. -/
def resolve (root : Entry) (links : Nat) (here : Path) : Path → Except ReadError Path
  | [] => .ok here
  | name :: rest =>
    match root.at? here with
    | some (.directory entries) =>
      if name = ".." then resolve root links here.dropLast rest
      else if nameLimit < name.utf8ByteSize then .error .nameTooLong
      else
        match entries.lookup name with
        | none => .error .missing
        | some (.link target) =>
          match links with
          | 0 => .error .tooManyLinks
          | links + 1 => resolve root links [] (target ++ rest)
        | some _ => resolve root links (here ++ [name]) rest
    | _ => .error .notDirectory
termination_by path => (links, path.length)

/-- The entry that a path leads to, links followed. -/
def locate (fs : FileSystem) (path : Path) : Except ReadError Entry :=
  match resolve fs.root linkLimit [] path with
  | .error e => .error e
  | .ok place =>
    match fs.root.at? place with
    | some e => .ok e
    | none => .error .missing

/-- The bytes of a file. -/
def read (fs : FileSystem) (path : Path) : Except ReadError (List UInt8) :=
  match fs.locate path with
  | .error e => .error e
  | .ok (.file (some bytes)) => .ok bytes
  | .ok (.directory _) => .error .isDirectory
  | .ok _ => .error .denied

/-- Whether a path leads to a file.  A path that leads nowhere does not, unless it meets a name that
is too long: then the question fails. -/
def isFile (fs : FileSystem) (path : Path) : Except ReadError Bool :=
  match fs.locate path with
  | .ok (.file _) => .ok true
  | .error .nameTooLong => .error .nameTooLong
  | _ => .ok false

/-! ## Real paths -/

/-- The path from `here` with all its links replaced by their targets.  A link that lies inside one
of the `opened` ones, which are being replaced, leads into a loop; the path is then given as far as
it was replaced, with the names that are left behind it.  The links that are not opened number at
most `links`. -/
def realPathFrom (root : Entry) (links : Nat) (opened : List Path) (here : Path) :
    Path → Except Path Path
  | [] => .ok here
  | name :: rest =>
    if name = ".." then realPathFrom root links opened here.dropLast rest
    else
      let place := here ++ [name]
      match root.at? place, links with
      | some (.link _), 0 => .error (place ++ rest)
      | some (.link target), deeper + 1 =>
        if opened.contains place then .error (place ++ rest)
        else
          match realPathFrom root deeper (place :: opened) [] target with
          | .ok there => realPathFrom root (deeper + 1) opened there rest
          | .error stuck => .error (stuck ++ rest)
      | _, links => realPathFrom root links opened place rest
termination_by path => (links, path.length)

/-- A path without `..`, which takes off the name before it. -/
def normalized (path : Path) : Path :=
  path.foldl (fun here name => if name = ".." then here.dropLast else here ++ [name]) []

/-- A path without links and `..`, but for the links of a loop. -/
def realPath (fs : FileSystem) (path : Path) : Path :=
  match realPathFrom fs.root fs.root.linkCount [] [] path with
  | .ok there => there
  | .error stuck => normalized stuck

end FileSystem

/-! ## Lemmas -/

theorem Entry.lookup_put (entries : List (String × Entry)) (name : String) (e : Entry) :
    (put entries name e).lookup name = some e := by
  induction entries with
  | nil => simp [put]
  | cons head rest ih =>
    obtain ⟨other, old⟩ := head
    by_cases h : name = other
    · simp [put, h]
    · have hb : (name == other) = false := by simpa using h
      simp [put, h, List.lookup_cons, hb, ih]

/-- An entry is found where it was put. -/
theorem Entry.at?_insert (e : Entry) (path : Path) (new : Entry) :
    (e.insert path new).at? path = some new := by
  induction path generalizing e with
  | nil => cases e <;> simp [insert, at?]
  | cons name path ih => cases e <;> simp [insert, at?, lookup_put, ih]

end CallAlign
