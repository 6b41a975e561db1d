import LicenseHeader.Text.Basic

/-!
# Paths

A path is a text in which slashes separate names. Nothing is normalized: paths are
put together by appending and reported as they were built.
-/

namespace LicenseHeader

/-- A path as it is written. -/
abbrev Path := Text

namespace Path

/-- The parts between the slashes, empty ones included. -/
def parts : Path → List Text
  | [] => [[]]
  | c :: rest =>
    if c = '/' then [] :: parts rest
    else
      match parts rest with
      | [] => [[c]]
      | part :: more => (c :: part) :: more

/-- Whether a path starts at the root. -/
def isAbsolute (p : Path) : Bool := p.head? == some '/'

/-- The names along a path: empty parts and the dot, which go nowhere, are left
out. -/
def names (p : Path) : List Text := (parts p).filter fun part => part != [] && part != ['.']

/-- The last name of a path. A path that ends by going up has none. -/
def fileName? (p : Path) : Option Text := (names p).getLast?.filter fun name => name != ['.', '.']

/-- **A path below another.** An absolute path stays as it is; otherwise a slash
comes in between, unless there is nothing before it or a slash already. -/
def join (root p : Path) : Path :=
  if isAbsolute p then p
  else if root.isEmpty || Text.endsWithChar '/' root then root ++ p
  else root ++ '/' :: p

/-- Where the old version of a file is kept while a new one is written. -/
def backup (p : Path) : Path := p ++ ".bak".toList

end Path

end LicenseHeader
