import LicenseHeader.Path.Pattern
import LicenseHeader.Text.Line

/-!
# Excluded paths

A path is excluded if one of the patterns matches it as a whole or matches its
last name. Patterns come from a built-in list, from the command line and from a
file with one pattern a line; those that are wrongly written are reported and
dropped.
-/

namespace LicenseHeader.Exclude

/-- The patterns that always apply: metadata of version control, dot files,
leftovers of editors and common binary formats. -/
def defaults : List Text :=
  [".svn", "CVS", ".*", "*~", "#*#", "*.pyc", "*.pyo", "*.png", "*.gif", "*.jpg", "*.jpeg",
    "*.ico", "*.gz", "*.xcf"].map String.toList

/-- **Whether patterns exclude a path.** -/
def isExcluded (patterns : List Pattern) (p : Path) : Bool :=
  patterns.any fun pattern => pattern.covers p || (Path.fileName? p).any pattern.covers

/-- The patterns among some texts. -/
def compile (sources : List Text) : List Pattern :=
  sources.filterMap fun source => (Pattern.ofText source).toOption

/-- What is said about the texts that are not patterns. -/
def warnings (sources : List Text) : List String :=
  sources.filterMap fun source =>
    match Pattern.ofText source with
    | .ok _ => none
    | .error e =>
      some s!"Ignoring invalid exclude pattern '{String.ofList source}': {e.message}"

/-- The patterns listed in a file: one a line, without blank lines and lines that
start with a hash sign. -/
def ofFile (text : Text) : List Text :=
  ((Text.lines text).filter fun line => !Text.isBlank line && line.head? != some '#').map Text.trim

end LicenseHeader.Exclude
