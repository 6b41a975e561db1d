import LicenseHeader.FileTree.Basic

/-!
# Walking a path

A path is walked hop by hop: to a name in the directory reached so far, to the
same directory, or up to the one above. A link on the way is followed by walking
its own path first; after `maxLinks` of them the walk gives up.

There are two walks. `FileTree.resolve` follows the whole path and ends at a node
that exists. `FileTree.spot` stops before the last hop, at the directory in which
that hop would be taken: that is what creating, moving and removing need, since
they act on the name itself and not on what a link there leads to.
-/

namespace LicenseHeader

/-- One hop of a walk. -/
inductive Hop where
  /-- To this name. -/
  | name (n : Text)
  /-- Nowhere. -/
  | here
  /-- To the directory above. -/
  | up
deriving DecidableEq, Repr

namespace Path

/-- The hops of a path, a slash at its end aside. -/
def hops (p : Path) : List Hop :=
  ((parts p).filter fun part => part != []).map fun part =>
    if part = ['.'] then .here else if part = ['.', '.'] then .up else .name part

/-- Whether a path ends with a slash and so means a directory. -/
def endsInSlash (p : Path) : Bool := Text.endsWithChar '/' p

/-- The hops of a path on which even the last link is followed: a slash at the end
is one more hop, which only a directory allows. -/
def allHops (p : Path) : List Hop := if endsInSlash p then hops p ++ [.here] else hops p

/-- The length of a text in bytes. -/
def byteLength (p : Text) : Nat := p.foldr (fun c n => c.utf8Size + n) 0

end Path

namespace FileTree

/-- How many links a walk follows. -/
def maxLinks : Nat := 40

/-- The longest name, in bytes. -/
def maxNameBytes : Nat := 255

/-- The length, in bytes, from which on a path is refused. -/
def maxPathBytes : Nat := 4096

/-- The faults of a path by itself. -/
def checkPath (p : Path) : Except FileError Unit :=
  if p.contains '\x00' then .error .nulInPath
  else if p = [] then .error .notFound
  else if maxPathBytes ≤ Path.byteLength p then .error .nameTooLong
  else .ok ()

/-- The node under a name in a directory. -/
def nodeIn (t : FileTree) (dir : Location) (name : Text) : Except FileError (Option Node) :=
  if maxNameBytes < Path.byteLength name then .error .nameTooLong
  else .ok (t.node? (dir ++ [name]))

/-- Where a path starts when it is met in a directory. -/
def startOf (dir : Location) (p : Path) : Location := if Path.isAbsolute p then [] else dir

/-- Walking hops from a directory, with `follow` for the links met. -/
def resolveWith (t : FileTree) (follow : Location → List Hop → Except FileError Location) :
    Location → List Hop → Except FileError Location
  | dir, [] => .ok dir
  | dir, .here :: rest => resolveWith t follow dir rest
  | dir, .up :: rest => resolveWith t follow dir.dropLast rest
  | dir, .name n :: rest => do
    match ← t.nodeIn dir n with
    | none => throw .notFound
    | some .directory => resolveWith t follow (dir ++ [n]) rest
    | some (.file _) => if rest = [] then return dir ++ [n] else throw .notDirectory
    | some (.link target) => follow (startOf dir target) (Path.allHops target ++ rest)

/-- Walking hops from a directory with a number of links that may be followed. -/
def resolveHops (t : FileTree) : (links : Nat) → Location → List Hop → Except FileError Location
  | 0 => t.resolveWith fun _ _ => .error .tooManyLinks
  | links + 1 => t.resolveWith (t.resolveHops links)

/-- **The location a path leads to**, all links followed. -/
def resolve (t : FileTree) (p : Path) : Except FileError Location := do
  checkPath p
  t.resolveHops maxLinks (startOf t.workingDir p) (Path.allHops p)

/-- The place of a last hop. -/
structure Spot where
  /-- The directory in which the hop is taken. -/
  dir : Location
  /-- The hop. -/
  last : Hop
  /-- Whether a slash follows, so that a directory is meant. -/
  slash : Bool
deriving DecidableEq, Repr

/-- Walking up to the last hop of a path that is met in a directory. The hop of the
root is to stay there. -/
def spotFrom (t : FileTree) (dir : Location) (p : Path) : Except FileError Spot := do
  let hops := Path.hops p
  let dir ← t.resolveHops maxLinks (startOf dir p) hops.dropLast
  if t.isDirectory dir then
    return ⟨dir, hops.getLast?.getD .here, Path.endsInSlash p⟩
  else throw .notDirectory

/-- **The place of the last hop of a path.** -/
def spot (t : FileTree) (p : Path) : Except FileError Spot := do
  checkPath p
  t.spotFrom t.workingDir p

end FileTree

end LicenseHeader
