import LicenseHeader.Path.Basic
import LicenseHeader.Text.Utf8

/-!
# File trees

A file tree is a finite map from locations to nodes. A location is the list of
names that leads from the root to a node; the root itself, at the empty location,
is always a directory and needs no entry. Links are nodes that hold a path, which
is followed only when a path is walked (`LicenseHeader.FileTree.Walk`).

Everything is seen through `FileTree.node?`. The lemmas `node?_put` and
`node?_erase` say what the two changes do to it: one location changes, the others
stay.
-/

namespace LicenseHeader

/-- The names from the root to a node. -/
abbrev Location := List Text

/-- What stands at a location. -/
inductive Node where
  | file (content : Bytes)
  | directory
  /-- A symbolic link. -/
  | link (target : Path)
deriving DecidableEq, Repr

/-- The kinds of node. -/
inductive FileKind where
  | file | directory | link
deriving DecidableEq, Repr

/-- The kind of a node. -/
def Node.kind : Node → FileKind
  | .file _ => .file
  | .directory => .directory
  | .link _ => .link

/-- Why a step on files fails. -/
inductive FileError where
  | notFound
  | notDirectory
  | isDirectory
  | nameTooLong
  | tooManyLinks
  /-- The place cannot be moved, such as the working directory by its dot. -/
  | busy
  /-- A directory was to be moved into itself. -/
  | invalidMove
  | notEmpty
  /-- The path holds a NUL character. -/
  | nulInPath
  /-- The content is not a text. -/
  | notText
  /-- Any other cause, in the words of the system. -/
  | other (cause : String)
deriving DecidableEq, Repr

namespace FileError

/-- The wording of an error. -/
def message : FileError → String
  | notFound => "No such file or directory (os error 2)"
  | notDirectory => "Not a directory (os error 20)"
  | isDirectory => "Is a directory (os error 21)"
  | nameTooLong => "File name too long (os error 36)"
  | tooManyLinks => "Too many levels of symbolic links (os error 40)"
  | busy => "Device or resource busy (os error 16)"
  | invalidMove => "Invalid argument (os error 22)"
  | notEmpty => "Directory not empty (os error 39)"
  | nulInPath => "file name contained an unexpected NUL byte"
  | notText => "stream did not contain valid UTF-8"
  | other cause => cause

end FileError

/-- **A file tree**: its entries, and the location that relative paths start from. -/
structure FileTree where
  /-- The nodes below the root; for a location the first entry counts. -/
  entries : List (Location × Node) := []
  /-- Where relative paths start. -/
  workingDir : Location := []
deriving DecidableEq, Repr

namespace FileTree

/-- The node at a location. -/
def node? (t : FileTree) (l : Location) : Option Node :=
  if l = [] then some .directory
  else (t.entries.find? fun entry => entry.1 = l).map Prod.snd

/-- Whether there is a directory at a location. -/
def isDirectory (t : FileTree) (l : Location) : Bool := t.node? l == some .directory

/-- The tree without what stands at a location. -/
def erase (t : FileTree) (l : Location) : FileTree :=
  { t with entries := t.entries.filter fun entry => entry.1 != l }

/-- The tree with a node put at a location, in place of what stood there. -/
def put (t : FileTree) (l : Location) (n : Node) : FileTree :=
  { t with entries := (l, n) :: (t.erase l).entries }

/-- Looking for a location past the entries of another one. -/
theorem find?_filter_ne (entries : List (Location × Node)) (l k : Location) :
    (entries.filter fun entry => entry.1 != l).find? (fun entry => entry.1 = k) =
      if k = l then none else entries.find? fun entry => entry.1 = k := by
  rw [List.find?_filter]
  by_cases hk : k = l
  · simp [hk]
  · rw [if_neg hk]
    congr 1
    funext entry
    by_cases he : entry.1 = k <;> simp [he, hk]

/-- **Erasing takes away one location and leaves the others.** -/
theorem node?_erase (t : FileTree) {l : Location} (hl : l ≠ []) (k : Location) :
    (t.erase l).node? k = if k = l then none else t.node? k := by
  unfold node? erase
  by_cases hk : k = []
  · simp [hk, Ne.symm hl]
  · by_cases hkl : k = l <;> simp [hk, hkl, hl, find?_filter_ne, -List.find?_filter]

/-- **Putting changes one location and leaves the others.** -/
theorem node?_put (t : FileTree) {l : Location} (hl : l ≠ []) (n : Node) (k : Location) :
    (t.put l n).node? k = if k = l then some n else t.node? k := by
  unfold node? put erase
  by_cases hk : k = []
  · simp [hk, Ne.symm hl]
  · by_cases hkl : k = l
    · simp [hkl, hl]
    · simp [hk, hkl, Ne.symm hkl, find?_filter_ne, -List.find?_filter]

/-- The names directly below a location, each with its kind. -/
def children (t : FileTree) (l : Location) : List (Text × FileKind) :=
  t.entries.filterMap fun (k, n) =>
    match k.getLast? with
    | some name => if k.dropLast = l then some (name, n.kind) else none
    | none => none

/-- A location after everything at and below `source` has moved to `target`. -/
def relocate (source target l : Location) : Location :=
  match source.isPrefixOf? l with
  | some rest => target ++ rest
  | none => l

/-- The tree after everything at and below `source` has moved to `target`. -/
def move (t : FileTree) (source target : Location) : FileTree where
  entries := (t.erase target).entries.map fun (l, n) => (relocate source target l, n)
  workingDir := relocate source target t.workingDir

end FileTree

end LicenseHeader
