import LicenseHeader.Path.Exclude
import LicenseHeader.Scan.Report

/-!
# Actions on a whole tree

`FileProgram.scan` does an action on every file below a root. In a directory the
files come first, in the order of their names, then the directories. Excluded
entries are counted and otherwise left alone. Links are followed. Directories are
entered down to a given depth; with depth zero only the files of the root itself
are seen. A root that is a file is dealt with by itself.

`FileProgram.count` counts without doing anything, by the same rules except that
it does not follow links below the root.
-/

namespace LicenseHeader

/-- **What came of an action on a tree.** -/
structure Scan where
  reports : List FileReport := []
  /-- How many entries were excluded. -/
  excluded : Nat := 0
  /-- What is said about directories that could not be entered. -/
  warnings : List String := []
deriving DecidableEq, Repr

namespace Scan

/-- One scan after another. -/
def append (a b : Scan) : Scan :=
  ⟨a.reports ++ b.reports, a.excluded + b.excluded, a.warnings ++ b.warnings⟩

instance : Append Scan := ⟨append⟩

end Scan

/-- The entries of a directory, by what is done with them. -/
structure Sifted where
  files : List Path := []
  directories : List Path := []
  /-- How many are excluded. -/
  excluded : Nat := 0
deriving DecidableEq, Repr

/-- **How many files, directories and excluded entries there are.** -/
structure Tally where
  files : Nat := 0
  directories : Nat := 0
  excluded : Nat := 0
deriving DecidableEq, Repr

namespace Tally

/-- Two tallies together. -/
def add (a b : Tally) : Tally :=
  ⟨a.files + b.files, a.directories + b.directories, a.excluded + b.excluded⟩

instance : Add Tally := ⟨add⟩

end Tally

namespace FileProgram

/-- Names in increasing order, character by character. -/
def sortNames (names : List Text) : List Text := names.mergeSort Text.precedes

/-- The paths of a directory sorted into files, directories and excluded ones;
what leads nowhere is left out. -/
def sift (patterns : List Pattern) : List Path → FileProgram Sifted
  | [] => return {}
  | p :: rest => do
    if Exclude.isExcluded patterns p then
      let s ← sift patterns rest
      return { s with excluded := s.excluded + 1 }
    else
      let kind ← kindOf p
      let s ← sift patterns rest
      match kind with
      | .ok .file => return { s with files := p :: s.files }
      | .ok .directory => return { s with directories := p :: s.directories }
      | _ => return s

/-- An action on some files in order. -/
def processAll (action : Action) : List Path → FileProgram (List FileReport)
  | [] => return []
  | p :: rest => do
    let report ← processFile action p
    let more ← processAll action rest
    return report.toList ++ more

/-- Scanning some directories in order; one that cannot be entered is warned about. -/
def scanAll (scan : Path → FileProgram (Except FileError Scan)) : List Path → FileProgram Scan
  | [] => return {}
  | p :: rest => do
    let here ← scan p
    let more ← scanAll scan rest
    match here with
    | .ok s => return s ++ more
    | .error e =>
      let warning := s!"Error processing directory {String.ofList p}: {e.message}"
      return { warnings := [warning] } ++ more

/-- Scanning a root, with `below` for the directories in it. -/
def scanRoot (patterns : List Pattern) (action : Action) (below : List Path → FileProgram Scan)
    (root : Path) : FileProgram (Except FileError Scan) := do
  if ← isFile root then
    let report ← processFile action root
    return .ok { reports := report.toList }
  else
    match ← list root with
    | .error e => return .error e
    | .ok entries =>
      let s ← sift patterns ((sortNames (entries.map Prod.fst)).map (Path.join root))
      let reports ← processAll action s.files
      let more ← below s.directories
      return .ok ({ reports, excluded := s.excluded } ++ more)

/-- **An action on every file below a root**, down to a depth. -/
def scan (patterns : List Pattern) (action : Action) :
    (depth : Nat) → Path → FileProgram (Except FileError Scan)
  | 0, root => scanRoot patterns action (fun _ => return {}) root
  | depth + 1, root => scanRoot patterns action (scanAll (scan patterns action depth)) root

/-- Counting the entries of a directory, with `below` for the directories among
them. -/
def countEntries (patterns : List Pattern) (root : Path)
    (below : Path → FileProgram (Except FileError Tally)) :
    List (Text × FileKind) → FileProgram (Except FileError Tally)
  | [] => return .ok {}
  | (name, kind) :: rest => do
    let here ←
      if Exclude.isExcluded patterns (Path.join root name) then
        pure (.ok { excluded := 1 })
      else
        match kind with
        | .file => pure (.ok { files := 1 })
        | .directory => below (Path.join root name)
        | .link => pure (.ok {})
    match here with
    | .error e => return .error e
    | .ok tally =>
      match ← countEntries patterns root below rest with
      | .error e => return .error e
      | .ok more => return .ok (tally + more)

/-- Counting from a root, with `below` for the directories in it. -/
def countRoot (patterns : List Pattern) (below : Path → FileProgram (Except FileError Tally))
    (root : Path) : FileProgram (Except FileError Tally) := do
  if ← isFile root then return .ok { files := 1 }
  else
    match ← list root with
    | .error e => return .error e
    | .ok entries =>
      match ← countEntries patterns root below entries with
      | .error e => return .error e
      | .ok tally => return .ok (({ directories := 1 } : Tally) + tally)

/-- **The number of files, directories and excluded entries from a root on**, down
to a depth. A directory at the depth limit counts, what is in it does not. -/
def count (patterns : List Pattern) : (depth : Nat) → Path → FileProgram (Except FileError Tally)
  | 0, root => countRoot patterns (fun _ => return .ok { directories := 1 }) root
  | depth + 1, root => countRoot patterns (count patterns depth) root

end FileProgram

end LicenseHeader
