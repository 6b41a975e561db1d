import LicenseHeader.FileTree.Walk

/-!
# Looking at and changing a file tree

The steps that a program takes on files: looking at the kind of a node, listing a
directory, reading, removing, renaming and writing. Each is one indivisible step:
it either fails and says why, or gives its answer, and a step that changes the
tree gives the changed tree.
-/

namespace LicenseHeader.FileTree

/-- The kind of what a path leads to, links followed. -/
def kindOf (t : FileTree) (p : Path) : Except FileError FileKind := do
  let l ← t.resolve p
  match t.node? l with
  | some n => return n.kind
  | none => throw .notFound

/-- The entries of a directory with their own kinds, links not followed. -/
def list (t : FileTree) (p : Path) : Except FileError (List (Text × FileKind)) := do
  let l ← t.resolve p
  if t.isDirectory l then return t.children l else throw .notDirectory

/-- The content of a file. -/
def read (t : FileTree) (p : Path) : Except FileError Bytes := do
  let l ← t.resolve p
  match t.node? l with
  | some (.file content) => return content
  | some .directory => throw .isDirectory
  | _ => throw .notFound

/-- **Removing a file or a link.** Directories are not removed. -/
def remove (t : FileTree) (p : Path) : Except FileError FileTree := do
  let s ← t.spot p
  match s.last with
  | .name n =>
    match ← t.nodeIn s.dir n with
    | none => throw .notFound
    | some .directory => throw .isDirectory
    | some _ => if s.slash then throw .notDirectory else return t.erase (s.dir ++ [n])
  | _ => throw .isDirectory

/-- Whether a node may take the place of another one by renaming: a directory only
that of an empty directory, anything else only that of something else. -/
def checkReplace (t : FileTree) (source : Node) (target : Location) (old : Option Node) :
    Except FileError Unit :=
  match source, old with
  | _, none => .ok ()
  | .directory, some .directory =>
    if (t.children target).isEmpty then .ok () else .error .notEmpty
  | .directory, some _ => .error .notDirectory
  | _, some .directory => .error .isDirectory
  | _, some _ => .ok ()

/-- **Renaming**: whatever stands under the first path, itself and all below it,
comes to stand under the second. A link is moved, not what it leads to. -/
def rename (t : FileTree) (p q : Path) : Except FileError FileTree := do
  let source ← t.spot p
  let target ← t.spot q
  match source.last, target.last with
  | .name m, .name n =>
    let l := source.dir ++ [m]
    let k := target.dir ++ [n]
    match ← t.nodeIn source.dir m with
    | none => throw .notFound
    | some node =>
      let old ← t.nodeIn target.dir n
      if node ≠ .directory ∧ (source.slash || target.slash) then throw .notDirectory
      if l.isPrefixOf target.dir then throw .invalidMove
      if k.isPrefixOf source.dir then throw .notEmpty
      if l = k then return t
      t.checkReplace node k old
      return t.move l k
  | _, _ => throw .busy

/-- Where a file written to a path that is met in a directory comes to stand: under
the name itself, or, if there is a link, where that leads. -/
def writeTarget (t : FileTree) : (links : Nat) → Location → Path → Except FileError Location
  | links, dir, p => do
    let s ← t.spotFrom dir p
    match s.last with
    | .name n =>
      if s.slash then throw .isDirectory
      match ← t.nodeIn s.dir n with
      | none | some (.file _) => return s.dir ++ [n]
      | some .directory => throw .isDirectory
      | some (.link target) =>
        match links with
        | 0 => throw .tooManyLinks
        | links + 1 => writeTarget t links s.dir target
    | _ => throw .isDirectory

/-- **Writing a file**, which is made if it is not there yet. -/
def write (t : FileTree) (p : Path) (content : Bytes) : Except FileError FileTree := do
  checkPath p
  let l ← t.writeTarget maxLinks t.workingDir p
  return t.put l (.file content)

/-- The tree with a directory made for each name along a path, where there is none
yet. -/
def makeDirectories (t : FileTree) (p : Path) : FileTree :=
  (List.range (Path.hops p).length).foldl (fun t i =>
    match t.resolveHops maxLinks (startOf t.workingDir p) ((Path.hops p).take (i + 1)) with
    | .ok _ => t
    | .error _ =>
      match t.resolveHops maxLinks (startOf t.workingDir p) ((Path.hops p).take i),
          (Path.hops p)[i]? with
      | .ok dir, some (.name n) => t.put (dir ++ [n]) .directory
      | _, _ => t) t

/-- The tree with a link made at a path. -/
def makeLink (t : FileTree) (p target : Path) : Except FileError FileTree := do
  let s ← t.spot p
  match s.last with
  | .name n => return t.put (s.dir ++ [n]) (.link target)
  | _ => throw .isDirectory

end LicenseHeader.FileTree
